import Jitgen.Framework.Guarded
import Jitgen.Sandbox.Backend
import Jitgen.Sandbox.Run
import Jitgen.Sandbox.Which

/-!
# Backends found usable

A backend is usable when a probe of it succeeds. A launcher that may run a command without a sandbox
and still succeed is judged by what a trusted script observes inside: it must not reach a listener
that the same script reaches outside.
-/

namespace Jitgen

open Text

structure ProbeOutcome where
  success : Bool
  stdout : Text
  stderr : Text

/-- What stands at the end of a path, links not followed. -/
inductive Leaf where
  | present
  | absent
  | unreadable

/-- What the sandbox asks of the host, whose files and whose ability to isolate may change between
two calls. -/
inductive HostOp where
  | launcherHost
  /-- A listener on the loopback interface that was reached from outside any sandbox. -/
  | listen
  | probe (program : Text) (args : List Text) (inheritEnv : Bool)
  | canonicalize (path : Text)
  | symlinkMetadata (path : Text)
  | createDir (path : Text)
  | processEnv
  | launch (plan : SandboxPlan)

/-- The listener answers its port. -/
abbrev HostAns : HostOp → Type
  | .launcherHost => LauncherHost
  | .listen => Option Nat
  | .probe _ _ _ => ProbeOutcome
  | .canonicalize _ => Option Text
  | .symlinkMetadata _ => Leaf
  | .createDir _ => Bool
  | .processEnv => EnvMap
  | .launch _ => Launch

abbrev HostProg (α : Type) := Prog HostAns α

abbrev HostTrace := Trace HostAns

def askHost (o : HostOp) : HostProg (HostAns o) := Prog.ask o

namespace Detect

def netOk : Text := "NET_OK"
def netDenied : Text := "NET_DENIED"
def noProbeTool : Text := "NO_PROBE_TOOL"

/-- Reach for the listener and say what came of it. -/
def loopbackProbeBody (port : Nat) : Text :=
  ("if command -v nc >/dev/null 2>&1; then nc -z -w 1 127.0.0.1 " : Text) ++ ofNat port ++
    " >/dev/null 2>&1 && echo " ++ netOk ++ " || echo " ++ netDenied ++
    "; elif command -v bash >/dev/null 2>&1; then bash -c 'exec 3<>/dev/tcp/127.0.0.1/" ++
    ofNat port ++ "' >/dev/null 2>&1 && echo " ++ netOk ++ " || echo " ++ netDenied ++
    "; else echo " ++ noProbeTool ++ "; fi"

def netProbeScript (port : Nat) : Text :=
  ("PATH=/usr/bin:/bin:/usr/sbin:/sbin; export PATH; " : Text) ++ loopbackProbeBody port

inductive NetVerdict where
  | denied
  | open
  | inconclusive
  deriving DecidableEq

/-- A connection that succeeded outweighs everything else. -/
def netProbeVerdict (stdout : Text) : NetVerdict :=
  if hasSubstr stdout netOk then .open
  else if hasSubstr stdout netDenied then .denied
  else .inconclusive

/-- The run of the script in the sandbox, and what it observed outside and inside. -/
structure BehavioralProbe where
  outcome : ProbeOutcome
  controlVerdict : NetVerdict
  isolatedVerdict : NetVerdict

def probeIsAvailable (b : Backend) (outcome : ProbeOutcome) : Bool :=
  outcome.success && !b.stderrShowsSilentDegradation outcome.stderr

def behavioralProbeConfirmsIsolation (b : Backend) (p : BehavioralProbe) : Bool :=
  p.controlVerdict = .open && probeIsAvailable b p.outcome && p.isolatedVerdict = .denied

def behavioralProbeShowsDegradation (b : Backend) (p : BehavioralProbe) : Bool :=
  b.stderrShowsSilentDegradation p.outcome.stderr || p.isolatedVerdict = .open

def resolveLauncher (program : Text) : HostProg (Option Text) := do
  let host ← askHost .launcherHost
  return Which.resolveTrusted host program

def runProbe (program : Text) (args : List Text) (inheritEnv : Bool) : HostProg ProbeOutcome :=
  askHost (.probe program args inheritEnv)

/-- Run the script outside and inside; `none` when it could not be run at all. -/
def probeBehavioral (b : Backend) : HostProg (Option BehavioralProbe) := do
  match ← askHost .listen with
  | none => return none
  | some port =>
    let script := netProbeScript port
    match b.behavioralNetProbe script with
    | none => return none
    | some (program, args) =>
      match ← resolveLauncher program with
      | none => return none
      | some abs =>
        let control ← runProbe "/bin/sh" ["-c", script] false
        let outcome ← runProbe abs args false
        return some ⟨outcome, netProbeVerdict control.stdout, netProbeVerdict outcome.stdout⟩

def probeBackend (b : Backend) : HostProg (Option ProbeOutcome) :=
  match b.availabilityProbe with
  | none => return none
  | some (program, args) => do
    match ← resolveLauncher program with
    | none => return none
    | some abs => return some (← runProbe abs args (b.tier = .container))

def available (b : Backend) : HostProg Bool :=
  if b.hasSilentDegradationMode then do
    match ← probeBehavioral b with
    | some p => return behavioralProbeConfirmsIsolation b p
    | none => return false
  else do
    match ← probeBackend b with
    | some outcome => return probeIsAvailable b outcome
    | none => return false

def detectFrom : List Backend → HostProg (List Backend)
  | [] => return []
  | b :: bs => do
    let usable ← available b
    let rest ← detectFrom bs
    return if usable then b :: rest else rest

/-- The usable backends that isolate. -/
def detect (os : HostOs) : HostProg (List Backend) := detectFrom (Backend.osCandidates os)

def netnsHelperAvailable (os : HostOs) : HostProg Bool :=
  if os = .linux then available .netnsHelper else return false

def backendAvailableNow (b : Backend) : HostProg Bool := available b

/-- Whether a launcher is seen to run commands without a sandbox right now. -/
def backendSilentlyDegrades (b : Backend) : HostProg Bool :=
  if b.hasSilentDegradationMode then do
    match ← probeBehavioral b with
    | some p => return behavioralProbeShowsDegradation b p
    | none => return false
  else return false

/-- An operation that starts no command of a request. -/
def Probes (o : HostOp) : Prop := o = .launcherHost ∨ o = .listen ∨ ∃ p a i, o = .probe p a i

section

variable {h t : HostTrace} {b : Backend}

abbrev OnlyProbes (h : HostTrace) {α : Type} (p : HostProg α) : Prop :=
  p.Guarded (fun _ o => Probes o) h

private theorem onlyProbes_probe {program : Text} {args : List Text} {inheritEnv : Bool} :
    OnlyProbes h (runProbe program args inheritEnv) :=
  Prog.guarded_ask (.inr (.inr ⟨_, _, _, rfl⟩))

private theorem onlyProbes_resolveLauncher {program : Text} :
    OnlyProbes h (resolveLauncher program) :=
  Prog.guarded_bind (Prog.guarded_ask (.inl rfl)) fun _ _ _ => trivial

private theorem onlyProbes_probeBehavioral : OnlyProbes h (probeBehavioral b) := by
  apply Prog.guarded_bind (Prog.guarded_ask (.inr (.inl rfl)))
  intro _ port _
  cases port with
  | none => trivial
  | some port =>
    dsimp only
    cases b.behavioralNetProbe (netProbeScript port) with
    | none => trivial
    | some command =>
      apply Prog.guarded_bind onlyProbes_resolveLauncher
      intro _ abs _
      cases abs with
      | none => trivial
      | some abs =>
        apply Prog.guarded_bind onlyProbes_probe
        intro _ _ _
        exact Prog.guarded_bind onlyProbes_probe fun _ _ _ => trivial

private theorem onlyProbes_probeBackend : OnlyProbes h (probeBackend b) := by
  unfold probeBackend
  cases b.availabilityProbe with
  | none => trivial
  | some command =>
    apply Prog.guarded_bind onlyProbes_resolveLauncher
    intro _ abs _
    cases abs with
    | none => trivial
    | some abs => exact Prog.guarded_bind onlyProbes_probe fun _ _ _ => trivial

theorem onlyProbes_available : OnlyProbes h (available b) := by
  unfold available
  cases b.hasSilentDegradationMode with
  | true =>
    apply Prog.guarded_bind onlyProbes_probeBehavioral
    intro _ p _
    cases p <;> trivial
  | false =>
    apply Prog.guarded_bind onlyProbes_probeBackend
    intro _ outcome _
    cases outcome <;> trivial

theorem onlyProbes_backendSilentlyDegrades : OnlyProbes h (backendSilentlyDegrades b) := by
  unfold backendSilentlyDegrades
  cases b.hasSilentDegradationMode with
  | true =>
    apply Prog.guarded_bind onlyProbes_probeBehavioral
    intro _ p _
    cases p <;> trivial
  | false => trivial

theorem onlyProbes_netnsHelperAvailable {os : HostOs} : OnlyProbes h (netnsHelperAvailable os) := by
  unfold netnsHelperAvailable
  split
  · exact onlyProbes_available
  · trivial

theorem onlyProbes_detectFrom (bs : List Backend) : OnlyProbes h (detectFrom bs) := by
  induction bs generalizing h with
  | nil => trivial
  | cons b bs ih =>
    apply Prog.guarded_bind onlyProbes_available
    intro _ _ _
    exact Prog.guarded_bind ih fun _ _ _ => trivial

/-- The trace holds a trial of the backend, with this result. -/
def Tried (b : Backend) (usable : Bool) (t : HostTrace) : Prop :=
  ∃ u v w, t = u ++ v ++ w ∧ (available b).Runs v usable

theorem Tried.extend {usable : Bool} (ht : Tried b usable t) (u w : HostTrace) :
    Tried b usable (u ++ t ++ w) := by
  obtain ⟨u', v, w', rfl, hv⟩ := ht
  exact ⟨u ++ u', v, w' ++ w, by simp only [List.append_assoc], hv⟩

/-- Detection tries every candidate and keeps the usable ones. -/
theorem detectFrom_runs {bs r : List Backend} (hr : (detectFrom bs).Runs t r) :
    (∀ c ∈ r, c ∈ bs ∧ Tried c true t) ∧ ∀ c ∈ bs, c ∉ r → Tried c false t := by
  induction bs generalizing t r with
  | nil =>
    obtain ⟨rfl, rfl⟩ := hr
    simp
  | cons b bs ih =>
    obtain ⟨t₁, t', usable, rfl, hb, hr⟩ := Prog.runs_bind.mp hr
    obtain ⟨t₂, t₃, rest, rfl, hrest, rfl, rfl⟩ := Prog.runs_bind.mp hr
    obtain ⟨hfound, hmissed⟩ := ih hrest
    have hrest' : ∀ c u, Tried c u t₂ → Tried c u (t₁ ++ (t₂ ++ [])) := by
      intro c u hc
      have hext := hc.extend t₁ []
      rwa [List.append_assoc] at hext
    have hself : Tried b usable (t₁ ++ (t₂ ++ [])) := ⟨[], t₁, t₂ ++ [], rfl, hb⟩
    constructor
    · intro c hc
      cases usable with
      | true =>
        rcases List.mem_cons.mp hc with rfl | hc
        · exact ⟨List.mem_cons_self, hself⟩
        · exact ⟨List.mem_cons_of_mem _ (hfound c hc).1, hrest' c true (hfound c hc).2⟩
      | false => exact ⟨List.mem_cons_of_mem _ (hfound c hc).1, hrest' c true (hfound c hc).2⟩
    · intro c hc hnot
      cases usable with
      | true =>
        have hne : c ≠ b := fun heq => hnot (by simp [heq])
        have hcrest : c ∉ rest := fun hmem => hnot (List.mem_cons_of_mem _ hmem)
        exact hrest' c false (hmissed c ((List.mem_cons.mp hc).resolve_left hne) hcrest)
      | false =>
        rcases List.mem_cons.mp hc with rfl | hc
        · exact hself
        · exact hrest' c false (hmissed c hc hnot)

/-- What shows in a trace that a backend isolated: a probe through its launcher succeeded; and where
success may be false, a script that reached a listener outside reported that it could not inside. -/
inductive Observed (b : Backend) (t : HostTrace) : Prop
  | functional {program path : Text} {args : List Text} {host : LauncherHost} {outcome : ProbeOutcome}
      {u w : HostTrace} (hloud : b.hasSilentDegradationMode = false)
      (hprobe : b.availabilityProbe = some (program, args))
      (hpath : Which.resolveTrusted host program = some path)
      (htrace : t = u ++ [⟨.launcherHost, host⟩,
        ⟨.probe path args (b.tier = .container), outcome⟩] ++ w)
      (hsuccess : outcome.success = true)
  | behavioral {port : Nat} {program path : Text} {args : List Text} {host : LauncherHost}
      {control outcome : ProbeOutcome} {u w : HostTrace}
      (hprobe : b.behavioralNetProbe (netProbeScript port) = some (program, args))
      (hpath : Which.resolveTrusted host program = some path)
      (htrace : t = u ++ [⟨.listen, some port⟩, ⟨.launcherHost, host⟩,
        ⟨.probe "/bin/sh" ["-c", netProbeScript port] false, control⟩,
        ⟨.probe path args false, outcome⟩] ++ w)
      (hcontrol : netOk <:+: control.stdout) (hsuccess : outcome.success = true)
      (hdenied : netDenied <:+: outcome.stdout) (hcut : ¬ netOk <:+: outcome.stdout)
      (hstderr : b.stderrShowsSilentDegradation outcome.stderr = false)

theorem Observed.extend (ht : Observed b t) (u w : HostTrace) : Observed b (u ++ t ++ w) := by
  cases ht with
  | functional hloud hprobe hpath htrace hsuccess =>
    rename_i u' w'
    refine .functional (u := u ++ u') (w := w' ++ w) hloud hprobe hpath ?_ hsuccess
    rw [htrace]
    simp only [List.append_assoc]
  | behavioral hprobe hpath htrace hcontrol hsuccess hdenied hcut hstderr =>
    rename_i u' w'
    refine .behavioral (u := u ++ u') (w := w' ++ w) hprobe hpath ?_ hcontrol hsuccess hdenied hcut
      hstderr
    rw [htrace]
    simp only [List.append_assoc]

theorem netProbeVerdict_open {stdout : Text} : netProbeVerdict stdout = .open ↔ netOk <:+: stdout := by
  rw [← hasSubstr_iff]
  unfold netProbeVerdict
  cases hasSubstr stdout netOk with
  | true => simp
  | false =>
    cases hasSubstr stdout netDenied <;> simp

private theorem netProbeVerdict_denied {stdout : Text} :
    netProbeVerdict stdout = .denied ↔ netDenied <:+: stdout ∧ ¬ netOk <:+: stdout := by
  rw [← hasSubstr_iff, ← hasSubstr_iff]
  unfold netProbeVerdict
  cases hasSubstr stdout netOk with
  | true => simp
  | false =>
    cases hasSubstr stdout netDenied <;> simp

private theorem resolveLauncher_runs {program : Text} {r : Option Text}
    (hr : (resolveLauncher program).Runs t r) :
    ∃ host, t = [⟨.launcherHost, host⟩] ∧ r = Which.resolveTrusted host program := by
  obtain ⟨host, t', rfl, rfl, rfl⟩ := hr
  exact ⟨host, rfl, rfl⟩

private theorem runProbe_runs {program : Text} {args : List Text} {inheritEnv : Bool}
    {r : ProbeOutcome} (hr : (runProbe program args inheritEnv).Runs t r) :
    t = [⟨.probe program args inheritEnv, r⟩] := by
  obtain ⟨_, t', rfl, rfl, rfl⟩ := hr
  rfl

theorem probeBehavioral_runs {p : BehavioralProbe} (hr : (probeBehavioral b).Runs t (some p)) :
    ∃ port program args host path control,
      b.behavioralNetProbe (netProbeScript port) = some (program, args) ∧
      Which.resolveTrusted host program = some path ∧
      t = [⟨.listen, some port⟩, ⟨.launcherHost, host⟩,
        ⟨.probe "/bin/sh" ["-c", netProbeScript port] false, control⟩,
        ⟨.probe path args false, p.outcome⟩] ∧
      p.controlVerdict = netProbeVerdict control.stdout ∧
      p.isolatedVerdict = netProbeVerdict p.outcome.stdout := by
  obtain ⟨port, t₁, rfl, hr⟩ := hr
  cases port with
  | none =>
    obtain ⟨-, hnone⟩ := hr
    cases hnone
  | some port =>
    dsimp only [Prog.bind] at hr
    cases hcommand : b.behavioralNetProbe (netProbeScript port) with
    | none =>
      rw [hcommand] at hr
      obtain ⟨-, hnone⟩ := hr
      cases hnone
    | some command =>
      rw [hcommand] at hr
      obtain ⟨t₂, t₃, abs, rfl, habs, hr⟩ := Prog.runs_bind.mp hr
      obtain ⟨host, rfl, rfl⟩ := resolveLauncher_runs habs
      cases hpath : Which.resolveTrusted host command.1 with
      | none =>
        rw [hpath] at hr
        obtain ⟨-, hnone⟩ := hr
        cases hnone
      | some path =>
        rw [hpath] at hr
        obtain ⟨t₄, t₅, control, rfl, hcontrol, hr⟩ := Prog.runs_bind.mp hr
        obtain ⟨t₆, t₇, outcome, rfl, houtcome, rfl, hp⟩ := Prog.runs_bind.mp hr
        cases hp
        rw [runProbe_runs hcontrol, runProbe_runs houtcome]
        exact ⟨port, command.1, command.2, host, path, control, hcommand, hpath, rfl, rfl, rfl⟩

private theorem probeBackend_runs {outcome : ProbeOutcome}
    (hr : (probeBackend b).Runs t (some outcome)) :
    ∃ program args host path, b.availabilityProbe = some (program, args) ∧
      Which.resolveTrusted host program = some path ∧
      t = [⟨.launcherHost, host⟩, ⟨.probe path args (b.tier = .container), outcome⟩] := by
  unfold probeBackend at hr
  cases hcommand : b.availabilityProbe with
  | none =>
    rw [hcommand] at hr
    obtain ⟨-, hnone⟩ := hr
    cases hnone
  | some command =>
    rw [hcommand] at hr
    obtain ⟨t₂, t₃, abs, rfl, habs, hr⟩ := Prog.runs_bind.mp hr
    obtain ⟨host, rfl, rfl⟩ := resolveLauncher_runs habs
    cases hpath : Which.resolveTrusted host command.1 with
    | none =>
      rw [hpath] at hr
      obtain ⟨-, hnone⟩ := hr
      cases hnone
    | some path =>
      rw [hpath] at hr
      obtain ⟨t₄, t₅, outcome', rfl, houtcome, rfl, heq⟩ := Prog.runs_bind.mp hr
      cases heq
      rw [runProbe_runs houtcome]
      exact ⟨command.1, command.2, host, path, rfl, hpath, rfl⟩

theorem observed_of_available (hr : (available b).Runs t true) : Observed b t := by
  unfold available at hr
  cases hmode : b.hasSilentDegradationMode with
  | true =>
    simp only [hmode, if_true] at hr
    obtain ⟨t₁, t₂, p, rfl, hp, hr⟩ := Prog.runs_bind.mp hr
    cases p with
    | none =>
      obtain ⟨-, hfalse⟩ := hr
      cases hfalse
    | some p =>
      obtain ⟨rfl, hconfirms⟩ := hr
      obtain ⟨port, program, args, host, path, control, hcommand, hpath, rfl, hcontrol, hisolated⟩ :=
        probeBehavioral_runs hp
      have hall := hconfirms.symm
      simp only [behavioralProbeConfirmsIsolation, probeIsAvailable, Bool.and_eq_true,
        decide_eq_true_eq, Bool.not_eq_true', hcontrol, hisolated] at hall
      obtain ⟨⟨hopen, hsuccess, hstderr⟩, hdenied⟩ := hall
      obtain ⟨hdenied, hcut⟩ := netProbeVerdict_denied.mp hdenied
      exact .behavioral (u := []) (w := []) hcommand hpath rfl (netProbeVerdict_open.mp hopen)
        hsuccess hdenied hcut hstderr
  | false =>
    simp only [hmode, Bool.false_eq_true, if_false] at hr
    obtain ⟨t₁, t₂, r, rfl, hp, hr⟩ := Prog.runs_bind.mp hr
    cases r with
    | none =>
      obtain ⟨-, hfalse⟩ := hr
      cases hfalse
    | some outcome =>
      obtain ⟨rfl, havailable⟩ := hr
      obtain ⟨program, args, host, path, hcommand, hpath, rfl⟩ := probeBackend_runs hp
      have hall := havailable.symm
      simp only [probeIsAvailable, Bool.and_eq_true] at hall
      exact .functional (u := []) (w := []) hmode hcommand hpath rfl hall.1

end

end Detect

end Jitgen
