import Jitgen.Framework.Table
import Jitgen.State.Store

/-!
# Tables of the run store

The rows of a run's database and of the run index, and the statements that each operation executes
on them. A statement or a transaction takes its whole effect or none.
-/

namespace Jitgen

open Text

def StepStatus.parse (s : Text) : Option StepStatus :=
  if s = "pending" then some .pending
  else if s = "running" then some .running
  else if s = "succeeded" then some .succeeded
  else if s = "failed" then some .failed
  else if s = "skipped" then some .skipped
  else none

theorem StepStatus.parse_asStr (status : StepStatus) : parse status.asStr = some status := by
  cases status <;> decide

/-- A row of `steps`. -/
structure StepsRow where
  stepId : Text
  seq : Int
  kind : Text
  inputHash : Text
  status : Text
  error : Option Text
  retryCount : Int
  deriving DecidableEq

/-- A row of `artifacts`. -/
structure ArtifactsRow where
  id : Nat
  stepId : Text
  relPath : Text
  kind : Text
  sha256 : Text
  deriving DecidableEq

/-- The columns of an artifact row that are unique together. -/
def ArtifactsRow.key (a : ArtifactsRow) : Text × Text := (a.stepId, a.relPath)

/-- The database and the artifact files of a run; `lastId` is the greatest id given so far. -/
structure RunDb where
  steps : List StepsRow
  artifacts : List ArtifactsRow
  lastId : Nat
  files : Text → Option Bytes

/-- Create the tables that are not there. -/
def RunDb.openSchema : Option RunDb → RunDb
  | none => ⟨[], [], 0, fun _ => none⟩
  | some d => d

/-- A row of a step that is to be run. -/
def StepsRow.pending (step : Text) (seq : Int) (kind inputHash : Text) : StepsRow :=
  ⟨step, seq, kind, inputHash, "pending", none, 0⟩

/-- Whether a row was recorded with these inputs. -/
def StepsRow.SameInputs (row : StepsRow) (seq : Int) (kind inputHash : Text) : Prop :=
  row.seq = seq ∧ row.kind = kind ∧ row.inputHash = inputHash

instance (row : StepsRow) (seq : Int) (kind inputHash : Text) :
    Decidable (row.SameInputs seq kind inputHash) := inferInstanceAs (Decidable (_ ∧ _))

/-- Started before and not finished, or finished with a failure. -/
def StepsRow.Stopped (row : StepsRow) : Prop := row.status = "running" ∨ row.status = "failed"

instance (row : StepsRow) : Decidable row.Stopped := inferInstanceAs (Decidable (_ ∨ _))

def StepsRow.started (row : StepsRow) : StepsRow :=
  { row with
    retryCount := row.retryCount + if row.Stopped then 1 else 0
    status := "running" }

/-- A row as it is read; the count is cut to 32 bits. -/
def rowToStep (row : StepsRow) : Except Text StepRecord :=
  match StepStatus.parse row.status with
  | none => .error (("sqlite error: Conversion error from type Text at index: 3, " : Text) ++
      "unknown step status: " ++ debugQuoted row.status)
  | some status => .ok ⟨row.stepId, row.kind, row.inputHash, status, row.error,
      (row.retryCount % 2 ^ 32).toNat⟩

namespace RunDb

def recordStep (d : RunDb) (step : Text) (seq : Int) (kind inputHash : Text) :
    Except Text Unit × RunDb :=
  match Table.select StepsRow.stepId step d.steps with
  | none =>
    match Table.insert StepsRow.stepId (.pending step seq kind inputHash) d.steps with
    | none => (.error "sqlite error: UNIQUE constraint failed: steps.step_id", d)
    | some steps => (.ok (), { d with steps := steps })
  | some row =>
    if row.SameInputs seq kind inputHash then (.ok (), d)
    else
      (.ok (), { d with
        steps := Table.update StepsRow.stepId step
          (fun row => { row with
            seq := seq
            kind := kind
            inputHash := inputHash
            status := "pending"
            error := none
            retryCount := 0 }) d.steps
        artifacts := d.artifacts.filter (·.stepId ≠ step) })

/-- Change the row of a step, which has to be there. -/
def updateStep (d : RunDb) (step : Text) (f : StepsRow → StepsRow) : Except Text Unit × RunDb :=
  let n := d.steps.countP (·.stepId = step)
  let d := { d with steps := Table.update StepsRow.stepId step f d.steps }
  if n = 0 then (.error (unknownStep step), d) else (.ok (), d)

def beginStep (d : RunDb) (step : Text) : Except Text Unit × RunDb :=
  d.updateStep step StepsRow.started

def finishStep (d : RunDb) (step : Text) (status : StepStatus) (error : Option Text) :
    Except Text Unit × RunDb :=
  d.updateStep step fun row => { row with
    status := status.asStr
    error := error.map fun e => RunHandle.capStr e RunHandle.maxErrorLen }

def step (d : RunDb) (step : Text) : Except Text (Option StepRecord) :=
  match Table.select StepsRow.stepId step d.steps with
  | none => .ok none
  | some row => (rowToStep row).map some

/-- An answer of the query for the first step that is neither succeeded nor skipped. The order of
steps with one number is left open. -/
def ResumePoint (d : RunDb) (answer : Except Text (Option StepRecord)) : Prop :=
  ∃ rows : List StepsRow,
    rows.Perm (d.steps.filter fun r => r.status ∉ [("succeeded" : Text), "skipped"]) ∧
      rows.Pairwise (fun r r' => r.seq ≤ r'.seq) ∧
      answer = match rows.head? with
        | none => .ok none
        | some row => (rowToStep row).map some

/-- The components of an artifact path, checked one by one. -/
def safeJoin (rel : Text) : List UnixPath.Component → Except Text Unit
  | [] => .ok ()
  | .normal _ :: comps => safeJoin rel comps
  | .curDir :: comps => safeJoin rel comps
  | .parentDir :: _ =>
    .error (("invalid state: '..' not allowed in artifact path: " : Text) ++ rel)
  | .rootDir :: _ =>
    .error (("invalid state: absolute artifact path not allowed: " : Text) ++ rel)

variable [Digest]

/-- Write the file, then put its row in place of an earlier one. -/
def publishArtifact (d : RunDb) (rel : Text) (bytes : Bytes) (kind step : Text) :
    Except Text ArtifactRecord × RunDb :=
  match safeJoin rel (UnixPath.components rel) with
  | .error e => (.error e, d)
  | .ok () =>
    let row : ArtifactsRow := ⟨d.lastId + 1, step, rel, kind, sha256Hex bytes⟩
    (.ok ⟨step, rel, kind, sha256Hex bytes⟩,
      { d with
        files := Function.update d.files rel (some bytes)
        artifacts := Table.insertOrReplace ArtifactsRow.key row d.artifacts
        lastId := d.lastId + 1 })

end RunDb

inductive StepCall where
  | recordStep (step : Text) (seq : Int) (kind inputHash : Text)
  | beginStep (step : Text)
  | finishStep (step : Text) (status : StepStatus) (error : Option Text)
  | publishArtifact (rel : Text) (bytes : Bytes) (kind step : Text)

/-- A call that was carried out, whatever it returned, one that failed without an effect, or a
restart. -/
inductive StepEvent where
  | call (c : StepCall)
  | lost (c : StepCall)
  | reopen

section

variable [Digest]

def RunDb.call (d : RunDb) : StepCall → RunDb
  | .recordStep step seq kind inputHash => (d.recordStep step seq kind inputHash).2
  | .beginStep step => (d.beginStep step).2
  | .finishStep step status error => (d.finishStep step status error).2
  | .publishArtifact rel bytes kind step => (d.publishArtifact rel bytes kind step).2

def RunDb.next (d : RunDb) : StepEvent → RunDb
  | .call c => d.call c
  | .lost _ => d
  | .reopen => RunDb.openSchema (some d)

def RunDb.after (d : RunDb) (history : List StepEvent) : RunDb := history.foldl RunDb.next d

end

/-- The rows of `runs`. -/
abbrev IndexDb := List RunMeta

namespace IndexDb

def getRun (rows : IndexDb) (run : RunId) : Option RunMeta := Table.select RunMeta.runId run rows

def unsafeRunId (run : RunId) : Text := ("invalid state: unsafe run id: " : Text) ++ debugQuoted run

def openRun (rows : IndexDb) (run : RunId) : Except Text Unit :=
  if isSafeRunId run then
    match getRun rows run with
    | none => .error (runNotFound run)
    | some _ => .ok ()
  else .error (unsafeRunId run)

/-- Create a run, or reopen the one with the same id and inputs. -/
def createRun (rows : IndexDb) (info : RunMeta) : Except Text Unit × IndexDb :=
  if isSafeRunId info.runId then
    let rows := Table.insertOrIgnore RunMeta.runId info rows
    match getRun rows info.runId with
    | none => (openRun rows info.runId, rows)
    | some existing =>
      if RunStore.sameInputs existing info then (openRun rows info.runId, rows)
      else (.error (("invalid state: run id '" : Text) ++ info.runId ++
        "' already exists with different metadata"), rows)
  else (.error (unsafeRunId info.runId), rows)

def setRunStatus (rows : IndexDb) (run : RunId) (status : Text) : Except Text Unit × IndexDb :=
  let n := rows.countP (·.runId = run)
  let rows := Table.update RunMeta.runId run (fun row => { row with status := status }) rows
  if n = 0 then (.error (runNotFound run), rows) else (.ok (), rows)

end IndexDb

inductive IndexCall where
  | createRun (info : RunMeta)
  | setRunStatus (run : RunId) (status : Text)

def IndexDb.call (rows : IndexDb) : IndexCall → IndexDb
  | .createRun info => (rows.createRun info).2
  | .setRunStatus run status => (rows.setRunStatus run status).2

end Jitgen
