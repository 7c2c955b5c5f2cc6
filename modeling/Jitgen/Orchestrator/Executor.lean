import Jitgen.Orchestrator.Checkout
import Jitgen.Orchestrator.PatchApply

/-!
# The sandbox executor

Every execution fills a fresh overlay with the variant's revision; for a mutant it is the base
revision with the mutant's diff applied. Only then is anything run.
-/

namespace Jitgen

open Text

/-- Trees of the pinned revisions. -/
structure Revisions where
  base : GitTree
  head : GitTree

/-- Failure to populate an overlay. -/
inductive PopulateError where
  | overlay (e : OverlayError)
  | message (text : Text)
  deriving DecidableEq

def PopulateError.toExecError (root : Text) : PopulateError → ExecError
  | .overlay e => ⟨e.display root⟩
  | .message text => ⟨text⟩

/-- Apply a mutant to a checked-out base. -/
def mutateOverlay (o : Overlay) (m : Mutant) : Except PopulateError Overlay :=
  match readOverlayFile o m.path with
  | .error e => .error (.overlay e)
  | .ok none => .error (.message "mutant path absent in base overlay")
  | .ok (some original) =>
    match fromUtf8 original with
    | none => .error (.message "mutant target is not valid UTF-8")
    | some original =>
      match PatchApply.applyUnifiedDiff original m.diff with
      | .error e => .error (.overlay (.orchestrator e))
      | .ok mutated => (writeFile o m.path (toUtf8 mutated)).mapError .overlay

/-- Check out the revision of a variant, for a mutant with its mutation. -/
def populateOverlay (revs : Revisions) (v : Variant) (o : Overlay) :
    Except PopulateError Overlay :=
  match v with
  | .base => (checkoutRevision revs.base o).mapError .overlay
  | .head => (checkoutRevision revs.head o).mapError .overlay
  | .mutant m => do
    let o ← (checkoutRevision revs.base o).mapError PopulateError.overlay
    mutateOverlay o m

/-- What lies outside the executor: the provider, the allocation of overlay directories and the
sandboxed run in a populated overlay. Each may answer by the history `H`. -/
structure Host (H : Type) where
  provide : H → LlmRequest → Except GenerationError LlmResponse
  overlayDir : H → PipelineOp → Except ExecError Text
  execute : H → PipelineOp → Overlay → Except ExecError ExecutionResult

namespace SandboxExecutor

variable {H : Type}

def runInFreshOverlay (revs : Revisions) (host : Host H) (h : H) (o : PipelineOp) (v : Variant) :
    Except ExecError ExecutionResult := do
  let root ← host.overlayDir h o
  match populateOverlay revs v .empty with
  | .ok overlay => host.execute h o overlay
  | .error e => .error (e.toExecError root)

/-- Answers of the provider and the executor. -/
def answer (revs : Revisions) (host : Host H) (h : H) : (o : PipelineOp) → Ans o
  | .generate req => host.provide h req
  | .runCandidate c v => runInFreshOverlay revs host h (.runCandidate c v) v
  | .runExisting v => runInFreshOverlay revs host h (.runExisting v) v

end SandboxExecutor

/-- The reasons a checked-out base does not take a mutant. -/
inductive Unmaterialisable (o : Overlay) (m : Mutant) : Prop
  | unsafePath (h : rejectUnsafeRel m.path = true)
  | absent (h : ∀ b, readOverlayFile o m.path ≠ .ok (some b))
  | notUtf8 (b : Bytes) (h : readOverlayFile o m.path = .ok (some b)) (hb : fromUtf8 b = none)
  | rejectedDiff (b : Bytes) (original : Text) (e : OrchestratorError)
      (h : readOverlayFile o m.path = .ok (some b)) (hb : fromUtf8 b = some original)
      (hd : PatchApply.applyUnifiedDiff original m.diff = .error e)

/-- They are all the reasons: whatever passes them is written. -/
private theorem mutateOverlay_fails_iff (o : Overlay) (m : Mutant) :
    (∃ e, mutateOverlay o m = .error e) ↔ Unmaterialisable o m := by
  constructor
  · rintro ⟨e, h⟩
    by_cases habsent : ∀ b, readOverlayFile o m.path ≠ .ok (some b)
    · exact .absent habsent
    · simp only [not_forall, not_not] at habsent
      obtain ⟨b, hb⟩ := habsent
      cases hutf : fromUtf8 b with
      | none => exact .notUtf8 b hb hutf
      | some original =>
        cases hdiff : PatchApply.applyUnifiedDiff original m.diff with
        | error e => exact .rejectedDiff b original e hb hutf hdiff
        | ok mutated =>
          obtain ⟨o', ho'⟩ := writeFile_of_read (toUtf8 mutated) hb
          simp [mutateOverlay, hb, hutf, hdiff, ho', Except.mapError] at h
  · intro h
    have habsent : (∀ b, readOverlayFile o m.path ≠ .ok (some b)) →
        ∃ e, mutateOverlay o m = .error e := by
      intro habsent
      unfold mutateOverlay
      cases hr : readOverlayFile o m.path with
      | error e => exact ⟨_, rfl⟩
      | ok r =>
        cases r with
        | none => exact ⟨_, rfl⟩
        | some b => exact absurd hr (habsent b)
    cases h with
    | unsafePath h => exact habsent fun b hb => by simp [readOverlayFile, h] at hb
    | absent h => exact habsent h
    | notUtf8 b h hb => exact ⟨_, by simp [mutateOverlay, h, hb]; rfl⟩
    | rejectedDiff b original e h hb hd => exact ⟨_, by simp [mutateOverlay, h, hb, hd]; rfl⟩

/-- Whether the base revision checks out but does not take the mutant. -/
def unmaterialisable (revs : Revisions) (m : Mutant) : Bool :=
  match checkoutRevision revs.base .empty with
  | .ok o => !(mutateOverlay o m).isOk
  | .error _ => false

theorem unmaterialisable_iff (revs : Revisions) (m : Mutant) :
    unmaterialisable revs m = true ↔
      ∃ o, checkoutRevision revs.base .empty = .ok o ∧ Unmaterialisable o m := by
  unfold unmaterialisable
  cases checkoutRevision revs.base .empty with
  | error e => simp
  | ok o =>
    simp only [Except.ok.injEq, exists_eq_left', ← mutateOverlay_fails_iff]
    cases mutateOverlay o m <;> simp [Except.isOk, Except.toBool]

theorem populateOverlay_of_unmaterialisable {revs : Revisions} {m : Mutant}
    (h : unmaterialisable revs m = true) :
    ∃ e, populateOverlay revs (.mutant m) .empty = .error e := by
  obtain ⟨o, ho, hm⟩ := (unmaterialisable_iff revs m).mp h
  obtain ⟨e, he⟩ := (mutateOverlay_fails_iff o m).mpr hm
  exact ⟨e, by simp [populateOverlay, ho, Except.mapError, he, bind, Except.bind]⟩

end Jitgen
