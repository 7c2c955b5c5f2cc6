import Jitgen.Framework.Durable
import Jitgen.Gitintake.Paths
import Jitgen.Orchestrator.Error
import Jitgen.Report.Escape

/-!
# The durable run store

A global index holds one row per run; each run has its own table of steps, its artifact rows and its
artifact files. Every operation is one durable update or one read.
-/

namespace Jitgen

open Text

def stateSchemaVersion : Nat := 1

inductive StepStatus where
  | pending
  | running
  | succeeded
  | failed
  | skipped
  deriving DecidableEq

def StepStatus.asStr : StepStatus → Text
  | .pending => "pending"
  | .running => "running"
  | .succeeded => "succeeded"
  | .failed => "failed"
  | .skipped => "skipped"

/-- Whether a resumed run skips the step. -/
def StepStatus.isDone : StepStatus → Bool
  | .succeeded => true
  | .skipped => true
  | _ => false

structure RunMeta where
  runId : RunId
  repoPath : Text
  baseRef : Text
  headRef : Text
  mode : Text
  schemaVersion : Nat
  status : Text
  deriving DecidableEq

/-- A row of the step table. -/
structure StepRow where
  seq : Int
  kind : Text
  inputHash : Text
  status : StepStatus
  error : Option Text
  retryCount : Nat
  deriving DecidableEq

/-- A step as it is read back. -/
structure StepRecord where
  stepId : Text
  kind : Text
  inputHash : Text
  status : StepStatus
  error : Option Text
  retryCount : Nat
  deriving DecidableEq

structure ArtifactRecord where
  stepId : Text
  relPath : Text
  kind : Text
  sha256 : Text
  deriving DecidableEq

/-- Steps by id, artifact rows in insertion order, and artifact files by relative path. -/
structure RunDir where
  steps : Text → Option StepRow
  artifacts : List ArtifactRecord
  files : Text → Option Bytes

/-- The run index, and the directory of each run. -/
structure Store where
  index : RunId → Option RunMeta
  runs : RunId → RunDir

def RunDir.empty : RunDir := ⟨fun _ => none, [], fun _ => none⟩

def Store.empty : Store := ⟨fun _ => none, fun _ => .empty⟩

inductive StoreOp where
  | insertRun (info : RunMeta)
  | getRun (run : RunId)
  | openRun (run : RunId)
  | setRunStatus (run : RunId) (status : Text)
  | recordStep (run : RunId) (step : Text) (seq : Int) (kind inputHash : Text)
  | step (run : RunId) (step : Text)
  | beginStep (run : RunId) (step : Text)
  | finishStep (run : RunId) (step : Text) (status : StepStatus) (error : Option Text)
  | writeArtifact (run : RunId) (rel : Text) (bytes : Bytes)
  | insertArtifact (run : RunId) (row : ArtifactRecord)
  | readArtifact (run : RunId) (rel : Text)
  deriving DecidableEq

namespace StoreOp

/-- What an operation returns when it succeeds. -/
abbrev Res : StoreOp → Type
  | getRun _ => Option RunMeta
  | step _ _ => Option StepRecord
  | readArtifact _ _ => Option Bytes
  | _ => Unit

/-- The run an operation is about. -/
def run : StoreOp → RunId
  | insertRun info => info.runId
  | getRun r => r
  | openRun r => r
  | setRunStatus r _ => r
  | recordStep r _ _ _ _ => r
  | step r _ => r
  | beginStep r _ => r
  | finishStep r _ _ _ => r
  | writeArtifact r _ _ => r
  | insertArtifact r _ => r
  | readArtifact r _ => r

end StoreOp

def unknownStep (step : Text) : Text := ("invalid state: unknown step '" : Text) ++ step ++ "'"

def runNotFound (run : RunId) : Text := ("run not found: " : Text) ++ run

namespace RunDir

def setStep (d : RunDir) (step : Text) (row : StepRow) : RunDir :=
  { d with steps := Function.update d.steps step (some row) }

def setFile (d : RunDir) (rel : Text) (bytes : Bytes) : RunDir :=
  { d with files := Function.update d.files rel (some bytes) }

/-- Insert a pending step, or reset it and drop its artifact rows when its inputs changed. -/
def recordStep (d : RunDir) (step : Text) (seq : Int) (kind inputHash : Text) : RunDir :=
  match d.steps step with
  | none => d.setStep step ⟨seq, kind, inputHash, .pending, none, 0⟩
  | some row =>
    if row.seq ≠ seq ∨ row.kind ≠ kind ∨ row.inputHash ≠ inputHash then
      { d.setStep step ⟨seq, kind, inputHash, .pending, none, 0⟩ with
        artifacts := d.artifacts.filter (·.stepId ≠ step) }
    else d

/-- The row of a step that starts: an interrupted or failed one counts a retry. -/
def startedRow (row : StepRow) : StepRow :=
  { row with
    status := .running
    retryCount := row.retryCount + if row.status = .running ∨ row.status = .failed then 1 else 0 }

def insertArtifact (d : RunDir) (row : ArtifactRecord) : RunDir :=
  { d with artifacts :=
      d.artifacts.filter (fun a => ¬ (a.stepId = row.stepId ∧ a.relPath = row.relPath)) ++ [row] }

end RunDir

namespace Store

def updateRun (s : Store) (run : RunId) (d : RunDir) : Store :=
  { s with runs := Function.update s.runs run d }

def setMeta (s : Store) (run : RunId) (info : RunMeta) : Store :=
  { s with index := Function.update s.index run (some info) }

/-- Perform one operation. -/
def apply (s : Store) : (o : StoreOp) → Except Text o.Res × Store
  | .insertRun info =>
    match s.index info.runId with
    | some _ => (.ok (), s)
    | none => (.ok (), s.setMeta info.runId info)
  | .getRun run => (.ok (s.index run), s)
  | .openRun _ => (.ok (), s)
  | .setRunStatus run status =>
    match s.index run with
    | none => (.error (runNotFound run), s)
    | some info => (.ok (), s.setMeta run { info with status := status })
  | .recordStep run step seq kind inputHash =>
    (.ok (), s.updateRun run ((s.runs run).recordStep step seq kind inputHash))
  | .step run step =>
    (.ok (((s.runs run).steps step).map fun row =>
      ⟨step, row.kind, row.inputHash, row.status, row.error, row.retryCount⟩), s)
  | .beginStep run step =>
    match (s.runs run).steps step with
    | none => (.error (unknownStep step), s)
    | some row => (.ok (), s.updateRun run ((s.runs run).setStep step (RunDir.startedRow row)))
  | .finishStep run step status error =>
    match (s.runs run).steps step with
    | none => (.error (unknownStep step), s)
    | some row =>
      (.ok (), s.updateRun run
        ((s.runs run).setStep step { row with status := status, error := error }))
  | .writeArtifact run rel bytes => (.ok (), s.updateRun run ((s.runs run).setFile rel bytes))
  | .insertArtifact run row => (.ok (), s.updateRun run ((s.runs run).insertArtifact row))
  | .readArtifact run rel => (.ok ((s.runs run).files rel), s)

private theorem apply_other (s : Store) (o : StoreOp) {run : RunId} (h : run ≠ o.run) :
    (s.apply o).2.index run = s.index run ∧ (s.apply o).2.runs run = s.runs run := by
  cases o <;> simp only [StoreOp.run, ne_eq] at h <;> simp only [apply] <;>
    first
    | exact ⟨rfl, rfl⟩
    | (split <;> simp [setMeta, updateRun, h])
    | simp [updateRun, h]

/-- The index row of a run changes by insertion or by a new status. -/
theorem apply_index (s : Store) (o : StoreOp) (run : RunId) :
    (s.apply o).2.index run = s.index run ∨
    (∃ info, o = .insertRun info ∧ info.runId = run ∧ (s.apply o).2.index run = some info) ∨
    ∃ (status : Text) (info : RunMeta), o = .setRunStatus run status ∧
      (s.apply o).2.index run = some { info with status := status } := by
  cases o with
  | insertRun info =>
    by_cases hrun : info.runId = run
    · subst hrun
      cases hrow : s.index info.runId with
      | none => exact .inr (.inl ⟨info, rfl, rfl, by simp [apply, hrow, setMeta]⟩)
      | some row => exact .inl (by simp [apply, hrow])
    · exact .inl (s.apply_other (.insertRun info) (Ne.symm hrun)).1
  | setRunStatus r status =>
    by_cases hrun : r = run
    · subst hrun
      cases hrow : s.index r with
      | none => exact .inl (by simp [apply, hrow])
      | some row => exact .inr (.inr ⟨status, row, rfl, by simp [apply, hrow, setMeta]⟩)
    · exact .inl (s.apply_other (.setRunStatus r status) (Ne.symm hrun)).1
  | beginStep r step => exact .inl (by simp only [apply]; split <;> rfl)
  | finishStep r step status error => exact .inl (by simp only [apply]; split <;> rfl)
  | _ => exact .inl rfl

/-- An artifact file changes by being written. -/
theorem apply_files (s : Store) (o : StoreOp) (run : RunId) (rel : Text) :
    ((s.apply o).2.runs run).files rel = (s.runs run).files rel ∨
    ∃ bytes, o = .writeArtifact run rel bytes ∧ ((s.apply o).2.runs run).files rel = some bytes := by
  by_cases hrun : o.run = run
  · subst hrun
    cases o with
    | writeArtifact r rel' bytes =>
      by_cases hrel : rel' = rel
      · subst hrel
        exact .inr ⟨bytes, rfl, by simp [apply, updateRun, RunDir.setFile, StoreOp.run]⟩
      · refine .inl ?_
        simp [apply, updateRun, RunDir.setFile, StoreOp.run, Ne.symm hrel]
    | recordStep r step seq kind hash =>
      refine .inl ?_
      simp only [apply, updateRun, StoreOp.run, Function.update_self]
      unfold RunDir.recordStep
      split
      · rfl
      · split_ifs <;> rfl
    | insertRun info => exact .inl (by simp only [apply]; split <;> rfl)
    | setRunStatus r status => exact .inl (by simp only [apply]; split <;> rfl)
    | beginStep r step =>
      exact .inl (by simp only [apply]; split <;> simp [updateRun, RunDir.setStep, StoreOp.run])
    | finishStep r step status error =>
      exact .inl (by simp only [apply]; split <;> simp [updateRun, RunDir.setStep, StoreOp.run])
    | insertArtifact r row =>
      exact .inl (by simp [apply, updateRun, RunDir.insertArtifact, StoreOp.run])
    | _ => exact .inl rfl
  · exact .inl (by rw [(s.apply_other o (Ne.symm hrun)).2])

end Store

/-- How a store operation fails: without its effect, or after it. -/
inductive Fault where
  | none
  | before (e : Text)
  | after (e : Text)

/-- Operations of a driver: on the store, or on something outside. -/
inductive DriveOp (X : Type) where
  | store (o : StoreOp)
  | ext (x : X)

abbrev DriveAns {X : Type} (A : X → Type) : DriveOp X → Type
  | .store o => Except Text o.Res
  | .ext x => A x

/-- Whether a store operation fails, and what outside operations answer. -/
structure Choice {X : Type} (A : X → Type) where
  fault : Fault
  answer : (x : X) → A x

variable {X : Type} {A : X → Type}

/-- Perform a driver's operation under a choice. -/
def handle : Handler (DriveAns A) (Choice A) Store := fun c o s =>
  match o with
  | .store o =>
    match c.fault with
    | .none => s.apply o
    | .before e => (.error e, s)
    | .after e => (.error e, (s.apply o).2)
  | .ext x => (c.answer x, s)

theorem handle_ext (c : Choice A) (x : X) (s : Store) :
    handle c (.ext x) s = (c.answer x, s) := rfl

theorem handle_state (c : Choice A) (o : StoreOp) (s : Store) :
    (handle c (.store o) s).2 = s ∨ (handle c (.store o) s).2 = (s.apply o).2 := by
  unfold handle
  cases c.fault with
  | none => exact .inr rfl
  | before e => exact .inl rfl
  | after e => exact .inr rfl

theorem handle_ok {c : Choice A} {o : StoreOp} {s : Store} {a : o.Res}
    (h : (handle c (.store o) s).1 = .ok a) : handle c (.store o) s = s.apply o := by
  unfold handle at h ⊢
  cases hf : c.fault with
  | none => rfl
  | before e => simp [hf] at h
  | after e => simp [hf] at h

/-- Computations of a driver. -/
abbrev Drive (A : X → Type) (α : Type) := Fallible OrchestratorError (DriveAns A) α

def stateOp (o : StoreOp) : Drive A o.Res :=
  Fallible.attempt (.store o) OrchestratorError.state id

def invalidState (detail : Text) : OrchestratorError :=
  .state (("invalid state: " : Text) ++ detail)

/-- A run id is one plain path component. -/
def isSafeRunId (run : RunId) : Bool :=
  !run.isEmpty && run != "." && run != ".." && utf8Len run ≤ 128 &&
    run.all fun c => isAsciiAlphanumeric c || c == '.' || c == '_' || c == '-'

namespace RunStore

def getRun (run : RunId) : Drive A (Option RunMeta) := stateOp (.getRun run)

def setRunStatus (run : RunId) (status : Text) : Drive A Unit := stateOp (.setRunStatus run status)

def ensureSafeRunId (run : RunId) : Drive A Unit :=
  if isSafeRunId run then pure ()
  else throw (invalidState (("unsafe run id: " : Text) ++ debugQuoted run))

/-- Reopen a run of the index. -/
def openRun (run : RunId) : Drive A Unit := do
  ensureSafeRunId run
  match ← getRun run with
  | none => throw (.state (runNotFound run))
  | some _ => stateOp (.openRun run)

/-- Whether two rows are about the same inputs; the status is not compared. -/
def sameInputs (a b : RunMeta) : Bool :=
  a.repoPath == b.repoPath && a.baseRef == b.baseRef && a.headRef == b.headRef &&
    a.mode == b.mode && a.schemaVersion == b.schemaVersion

/-- Create a run, or reopen the one with the same id and inputs. -/
def createRun (info : RunMeta) : Drive A Unit := do
  ensureSafeRunId info.runId
  stateOp (.insertRun info)
  match ← getRun info.runId with
  | none => openRun info.runId
  | some existing =>
    if sameInputs existing info then openRun info.runId
    else throw (invalidState
      (("run id '" : Text) ++ info.runId ++ "' already exists with different metadata"))

end RunStore

/-- Digest of stored bytes and of hashed material. -/
class Digest where
  sha256Hex : Bytes → Text

export Digest (sha256Hex)

namespace RunHandle

def recordStep (run : RunId) (step : Text) (seq : Int) (kind inputHash : Text) : Drive A Unit :=
  stateOp (.recordStep run step seq kind inputHash)

def step (run : RunId) (step : Text) : Drive A (Option StepRecord) := stateOp (.step run step)

def beginStep (run : RunId) (step : Text) : Drive A Unit := stateOp (.beginStep run step)

def maxErrorLen : Nat := 8 * 1024

/-- Cut an over-long string on a character boundary and mark the cut. -/
def capStr (s : Text) (max : Nat) : Text :=
  if utf8Len s ≤ max then s else bytePrefix max s ++ truncationMarker

def finishStep (run : RunId) (step : Text) (status : StepStatus) (error : Option Text) :
    Drive A Unit :=
  stateOp (.finishStep run step status (error.map fun e => capStr e maxErrorLen))

/-- A path that stays below the run directory. -/
def safeJoin (rel : Text) : Drive A Unit :=
  let comps := UnixPath.components rel
  if comps.contains .rootDir then
    throw (invalidState (("absolute artifact path not allowed: " : Text) ++ rel))
  else if comps.contains .parentDir then
    throw (invalidState (("'..' not allowed in artifact path: " : Text) ++ rel))
  else pure ()

variable [Digest]

/-- Publish the file, then its row. -/
def publishArtifact (run : RunId) (rel : Text) (bytes : Bytes) (kind step : Text) :
    Drive A ArtifactRecord := do
  safeJoin rel
  stateOp (.writeArtifact run rel bytes)
  let row : ArtifactRecord := ⟨step, rel, kind, sha256Hex bytes⟩
  stateOp (.insertArtifact run row)
  return row

end RunHandle

end Jitgen
