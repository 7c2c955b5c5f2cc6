import Jitgen.Sandbox.Policy

/-!
# Choice of a backend

Which backend runs an untrusted command, given the ones found usable. Without a tier that isolates,
the choice is refused unless the operator opted in to running without one.
-/

namespace Jitgen

open Text

inductive Tier where
  | osSandbox
  | container
  | netnsLocal
  | constrainedLocal
  deriving DecidableEq

/-- Operating systems, as far as their backends differ. -/
inductive HostOs where
  | linux
  | macos
  | other
  deriving DecidableEq

namespace Backend

def tier : Backend → Tier
  | .bwrap | .firejail | .sandboxExec => .osSandbox
  | .docker | .podman => .container
  | .netnsHelper => .netnsLocal
  | .constrainedLocal => .constrainedLocal

/-- Whether the tier confines the file system and the network. -/
def isolates (b : Backend) : Bool := b.tier = .osSandbox || b.tier = .container

/-- Backends for an unspecific request, the strongest first. -/
def autoPreference : List Backend := [.bwrap, .firejail, .sandboxExec, .docker, .podman]

/-- Whether a command that was never started makes the backend's usability be tried again. -/
def reprobesOnInnerNeverStarted : Backend → Bool
  | .netnsHelper => true
  | _ => false

/-- A command that succeeds where the backend can isolate. -/
def availabilityProbe : Backend → Option (Text × List Text)
  | .bwrap => some ("bwrap", ["--unshare-all", "--ro-bind", "/", "/", "/bin/true"])
  | .firejail => some ("firejail", ["--net=none", "--", "/bin/true"])
  | .sandboxExec => some ("sandbox-exec", ["-p", "(version 1)(allow default)", "/usr/bin/true"])
  | .docker => some ("docker", ["version"])
  | .podman => some ("podman", ["version"])
  | .netnsHelper =>
    some ("unshare", ["--user", "--map-root-user", "--net", "--", "/bin/sh", "-c", "true"])
  | .constrainedLocal => none

/-- A command that runs a trusted script where the backend has cut off the network. -/
def behavioralNetProbe (b : Backend) (script : Text) : Option (Text × List Text) :=
  match b with
  | .firejail => some ("firejail", ["--net=none", "--", "/bin/sh", "-c", script])
  | _ => none

def osCandidates : HostOs → List Backend
  | .macos => [.sandboxExec, .docker, .podman]
  | .linux => [.bwrap, .firejail, .docker, .podman]
  | .other => [.docker, .podman]

/-- The isolating backend that a configuration names. -/
def explicit : SandboxBackend → Option Backend
  | .bwrap => some .bwrap
  | .firejail => some .firejail
  | .sandboxExec => some .sandboxExec
  | .docker => some .docker
  | .podman => some .podman
  | .auto | .local | .netnsHelper => none

end Backend

/-- The policy of the sandbox with what its backend is chosen by. -/
structure SandboxPolicy extends ExecPolicy where
  backend : SandboxBackend
  allowUnsafeLocal : Bool

def SandboxPolicy.fromTrusted (t : TrustedConfig) : SandboxPolicy where
  toExecPolicy := ExecPolicy.fromTrusted t
  backend := t.sandboxBackend
  allowUnsafeLocal := t.unsafeLocalExecution

/-- Errors of the whole sandbox: those of its executor, and of choosing and probing a backend. -/
inductive CapstoneError where
  | noIsolationAvailable
  | backendUnavailable (id : Text)
  | netnsRequiresUnsafeLocal
  | unsafeSyntheticDir (path : Text)
  | backendUnavailableMidRun (id : Text)
  | executor (e : SandboxError)
  deriving DecidableEq

open Backend in
/-- Choose a backend from those found usable. -/
def select (available : List Backend) (policy : SandboxPolicy) : Except CapstoneError Backend :=
  match policy.backend with
  | .auto =>
    match autoPreference.find? (available.contains ·) with
    | some b => .ok b
    | none =>
      if policy.allowUnsafeLocal then
        if available.contains .netnsHelper then .ok .netnsHelper else .ok .constrainedLocal
      else .error .noIsolationAvailable
  | .local =>
    if policy.allowUnsafeLocal then .ok .constrainedLocal else .error .noIsolationAvailable
  | .netnsHelper =>
    if !policy.allowUnsafeLocal then .error .netnsRequiresUnsafeLocal
    else if available.contains .netnsHelper then .ok .netnsHelper
    else .error (.backendUnavailable Backend.netnsHelper.id)
  | other =>
    match explicit other with
    | some b => if available.contains b then .ok b else .error (.backendUnavailable b.id)
    | none => .error .noIsolationAvailable

section

open Backend

variable {available available' : List Backend} {policy : SandboxPolicy} {b : Backend}

private theorem isolates_autoPreference (h : b ∈ autoPreference) : b.isolates = true := by
  revert b
  decide

private theorem isolates_explicit {s : SandboxBackend} (h : explicit s = some b) :
    b.isolates = true := by
  cases s <;> cases h <;> rfl

/-- A chosen backend isolates and was found usable, or the operator opted in. -/
theorem select_ok (h : select available policy = .ok b) :
    (b.isolates = true ∧ b ∈ available) ∨
      policy.allowUnsafeLocal = true ∧ (b = .constrainedLocal ∨ b = .netnsHelper ∧ b ∈ available) := by
  unfold select at h
  split at h
  · split at h
    · rename_i b' hfind
      cases h
      refine .inl ⟨isolates_autoPreference (List.mem_of_find?_eq_some hfind), ?_⟩
      simpa using List.find?_some hfind
    · split at h
      · rename_i hopt
        split at h
        · rename_i hnetns
          cases h
          exact .inr ⟨hopt, .inr ⟨rfl, by simpa using hnetns⟩⟩
        · cases h
          exact .inr ⟨hopt, .inl rfl⟩
      · cases h
  · split at h
    · rename_i hopt
      cases h
      exact .inr ⟨hopt, .inl rfl⟩
    · cases h
  · split at h
    · cases h
    · rename_i hopt
      split at h
      · rename_i hnetns
        cases h
        exact .inr ⟨by simpa using hopt, .inr ⟨rfl, by simpa using hnetns⟩⟩
      · cases h
  · split at h
    · rename_i b' hb'
      split at h
      · rename_i hmem
        cases h
        exact .inl ⟨isolates_explicit hb', by simpa using hmem⟩
      · cases h
    · cases h

/-- A configuration names its backend, the local tier, or any. -/
def Backend.Requested (s : SandboxBackend) (b : Backend) : Prop :=
  s = .auto ∨ s = .local ∧ b = .constrainedLocal ∨ s = .netnsHelper ∧ b = .netnsHelper ∨
    explicit s = some b

theorem select_requested (h : select available policy = .ok b) : Requested policy.backend b := by
  unfold select at h
  split at h
  · rename_i hauto
    exact .inl hauto
  · rename_i hlocal
    split at h
    · cases h
      exact .inr (.inl ⟨hlocal, rfl⟩)
    · cases h
  · rename_i hnetns
    split at h
    · cases h
    · split at h
      · cases h
        exact .inr (.inr (.inl ⟨hnetns, rfl⟩))
      · cases h
  · split at h
    · rename_i b' hb'
      split at h
      · cases h
        exact .inr (.inr (.inr hb'))
      · cases h
    · cases h

theorem netns_not_mem_of_auto_local (hauto : policy.backend = .auto)
    (h : select available policy = .ok .constrainedLocal) : Backend.netnsHelper ∉ available := by
  unfold select at h
  simp only [hauto] at h
  split at h
  · rename_i hfind
    cases h
    exact absurd (List.mem_of_find?_eq_some hfind) (by decide)
  · split at h
    · split at h
      · cases h
      · rename_i hnetns
        simpa using hnetns
    · cases h

/-- Among the backends for an unspecific request, one comes before another. -/
def Backend.Stronger (c b : Backend) : Prop := autoPreference.idxOf c < autoPreference.idxOf b

instance (c b : Backend) : Decidable (c.Stronger b) := Nat.decLt _ _

private theorem Stronger.mem_preference {c : Backend} (h : c.Stronger b) : c ∈ autoPreference :=
  List.idxOf_lt_length_iff.mp (Nat.lt_of_lt_of_le h List.idxOf_le_length)

private theorem not_mem_of_stronger {c : Backend}
    (hfind : autoPreference.find? (available.contains ·) = some b) (hc : c.Stronger b) :
    c ∉ available := by
  obtain ⟨hb, front, back, hsplit, hfront⟩ := List.find?_eq_some_iff_append.mp hfind
  have hnot : b ∉ front := by
    intro hmem
    have hunusable := hfront b hmem
    rw [hb] at hunusable
    cases hunusable
  have hidx : autoPreference.idxOf b = front.length := by
    rw [hsplit, List.idxOf_append_of_notMem hnot, List.idxOf_cons_self, Nat.add_zero]
  have hcfront : c ∈ front := by
    by_contra hcf
    have hge : front.length ≤ autoPreference.idxOf c := by
      rw [hsplit, List.idxOf_append_of_notMem hcf]
      exact Nat.le_add_right _ _
    unfold Backend.Stronger at hc
    omega
  simpa using hfront c hcfront

theorem select_auto_preferred (hauto : policy.backend = .auto)
    (h : select available policy = .ok b) {c : Backend} (hc : c.Stronger b) : c ∉ available := by
  unfold select at h
  simp only [hauto] at h
  split at h
  · rename_i hfind
    cases h
    exact not_mem_of_stronger hfind hc
  · rename_i hnone
    simpa using List.find?_eq_none.mp hnone c (Stronger.mem_preference hc)

end

end Jitgen
