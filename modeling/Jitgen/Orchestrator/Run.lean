import Jitgen.Orchestrator.Config
import Jitgen.Orchestrator.Report
import Jitgen.State.Store

/-!
# The run loop

A run is created or reopened, its trusted configuration is stored, every ranked target is driven
under a checkpoint, and the assembled report is stored. A resumed run takes the configuration from
the store. What is outside (the repository, the analysis of the diff, the processing of a target) is
an external operation; all invocations share the store of one state root.
-/

namespace Jitgen

open Text

/-- Serialization of stored data. -/
class Serde where
  targetJson : Target → Except Text Bytes
  trustedJson : TrustedConfig → Except Text Bytes
  trustedPretty : TrustedConfig → Except Text Bytes
  parseTrusted : Bytes → Except Text TrustedConfig
  outcomeJson : TargetOutcome → Except Text Bytes
  parseOutcome : Bytes → Except Text TargetOutcome
  reportPretty : RunReport → Except Text Bytes
  parseReport : Bytes → Except Text RunReport

/-- A failure to serialize or parse, as a configuration error. -/
def serdeResult {α : Type} (what : Text) (r : Except Text α) : Except OrchestratorError α :=
  r.mapError fun e => .config (what ++ ": " ++ e)

theorem serdeResult_ok {α : Type} {what : Text} {r : Except Text α} {a : α} :
    serdeResult what r = .ok a ↔ r = .ok a := by
  unfold serdeResult
  cases r <;> simp [Except.mapError]

/-- Keep the characters of a step id; every other one becomes a dash. -/
def sanitizeId (s : Text) : Text :=
  (s.map fun c =>
    let c := charToAsciiLower c
    if isAsciiAlphanumeric c || c == '_' || c == '-' then c else '-').take 64

section

variable [Serde]

def encodeOutcome (o : TargetOutcome) : Except OrchestratorError Bytes :=
  serdeResult "cannot encode outcome" (Serde.outcomeJson o)

def decodeOutcome (bytes : Bytes) : Except OrchestratorError TargetOutcome :=
  serdeResult "cannot decode stored outcome" (Serde.parseOutcome bytes)

variable [Digest]

/-- Hash of a target's inputs: the target and the configuration fingerprint. -/
def targetHash (rt : RankedTarget) (configFp : Text) : Except OrchestratorError Text :=
  (serdeResult "cannot hash target" (Serde.targetJson rt.target)).map fun bytes =>
    sha256Hex (bytes ++ [0x1f] ++ toUtf8 configFp)

theorem targetHash_ok {rt : RankedTarget} {configFp h : Text} (hh : targetHash rt configFp = .ok h) :
    ∃ bytes, Serde.targetJson rt.target = .ok bytes ∧
      h = sha256Hex (bytes ++ [0x1f] ++ toUtf8 configFp) := by
  unfold targetHash at hh
  cases hjson : serdeResult "cannot hash target" (Serde.targetJson rt.target) with
  | error e =>
    rw [hjson] at hh
    cases hh
  | ok bytes =>
    rw [hjson] at hh
    exact ⟨bytes, serdeResult_ok.mp hjson, (Except.ok.inj hh).symm⟩

/-- Fingerprint of the trusted configuration. -/
def configFingerprint (trusted : TrustedConfig) : Text :=
  match Serde.trustedJson trusted with
  | .ok bytes => sha256Hex bytes
  | .error _ => "config-fp-unavailable"

/-- Run id of the immutable inputs. -/
def deriveRunId (repoAbs base head : Text) (mode : Mode) : RunId :=
  let material := repoAbs ++ ['\x1f'] ++ base ++ ['\x1f'] ++ head ++ ['\x1f'] ++ mode.asStr
  ("run-" : Text) ++ (sha256Hex (toUtf8 material)).take 16

end

variable {X : Type} {A : X → Type}

/-- Read an artifact file; a missing one is `none`. -/
def readRunArtifact (run : RunId) (rel : Text) : Drive A (Option Bytes) :=
  if rejectUnsafeRel rel then throw (.git (("unsafe path: " : Text) ++ rel))
  else Fallible.attempt (.store (.readArtifact run rel)) OrchestratorError.io id

def targetStepId (id : Text) : Text := ("target-" : Text) ++ id

def targetArtifact (id : Text) : Text := ("targets/" : Text) ++ id ++ ".json"

section

variable [Serde] [Digest]

/-- Store the outcome of a processed target, or mark its step failed. -/
def checkpoint (run : RunId) (id : Text) :
    Except OrchestratorError TargetOutcome → Drive A TargetOutcome
  | .ok outcome => do
    let bytes ← Fallible.ofExcept (encodeOutcome outcome)
    let _ ← RunHandle.publishArtifact run (targetArtifact id) bytes "target" (targetStepId id)
    RunHandle.finishStep run (targetStepId id) .succeeded none
    return outcome
  | .error e => do
    -- a failure to record the failure is ignored
    let _ ← ((RunHandle.finishStep (A := A) run (targetStepId id) .failed
      (some e.display)).capture : Drive A (Except OrchestratorError Unit))
    throw e

/-- Process a target under its checkpoint. -/
def processStep (run : RunId) (id : Text) (process : Drive A TargetOutcome) :
    Drive A TargetOutcome := do
  RunHandle.beginStep run (targetStepId id)
  let result ← process.capture
  checkpoint run id result

/-- Drive one target: restore its outcome when the step is done, else process it. -/
def driveTarget (run : RunId) (configFp : Text) (process : RankedTarget → Drive A TargetOutcome)
    (i : Nat) (rt : RankedTarget) : Drive A TargetOutcome := do
  let id := sanitizeId rt.target.id
  let inputHash ← Fallible.ofExcept (targetHash rt configFp)
  RunHandle.recordStep run (targetStepId id) i "target" inputHash
  match ← RunHandle.step run (targetStepId id) with
  | none => throw (.invalid "state" "step vanished after record")
  | some step =>
    if step.status.isDone then do
      match ← readRunArtifact run (targetArtifact id) with
      | some bytes => Fallible.ofExcept (decodeOutcome bytes)
      -- done, but the artifact is gone: process it again
      | none => processStep run id (process rt)
    else processStep run id (process rt)

/-- Drive the ranked targets from the `i`-th on. -/
def driveFrom (run : RunId) (configFp : Text) (process : RankedTarget → Drive A TargetOutcome) :
    (i : Nat) → List RankedTarget → Drive A (List TargetOutcome)
  | _, [] => pure []
  | i, rt :: rest => do
    let outcome ← driveTarget run configFp process i rt
    let outcomes ← driveFrom run configFp process (i + 1) rest
    return outcome :: outcomes

def driveTargets (run : RunId) (ranked : List RankedTarget) (configFp : Text)
    (process : RankedTarget → Drive A TargetOutcome) : Drive A (List TargetOutcome) :=
  driveFrom run configFp process 0 ranked

end

structure RunOptions where
  repo : Text
  base : Text
  head : Text
  trusted : TrustedConfig
  deriving DecidableEq

/-- The opened repository: its absolute path, the pinned revisions and the state root. -/
structure OpenedRun where
  repoAbs : Text
  base : Text
  head : Text
  stateRoot : Text

/-- What the analysis of the pinned revisions yields. -/
structure Analysis where
  ranked : List RankedTarget
  workdir : Text
  configWarnings : List Text
  sandboxWarnings : List Text

inductive RunOp where
  | openRepo (opts : RunOptions)
  | ensureOutsideRepo (stateRoot repo : Text)
  | openStore (stateRoot : Text)
  | reopenRepo (info : RunMeta)
  -- the part of `drive_run` before its targets; calling it begins the drive
  | analyze (run : RunId) (base head : Text) (trusted : TrustedConfig) (injected : Bool)
  | process (cfg : RunConfig) (configFp : Text) (rt : RankedTarget)
  -- no effect: it notes the report a drive has assembled
  | assembled (run : RunId) (report : RunReport)
  deriving DecidableEq

abbrev RunAns : RunOp → Type
  | .openRepo _ => Except OrchestratorError OpenedRun
  | .ensureOutsideRepo _ _ => Except OrchestratorError Unit
  | .openStore _ => Except OrchestratorError Unit
  | .reopenRepo _ => Except OrchestratorError (Text × Text)
  | .analyze _ _ _ _ _ => Except OrchestratorError Analysis
  | .process _ _ _ => Except OrchestratorError TargetOutcome
  | .assembled _ _ => Unit

/-- Computations of a run. -/
abbrev RunProg (α : Type) := Drive RunAns α

namespace RunOp

def callProcess (cfg : RunConfig) (configFp : Text) (rt : RankedTarget) : RunProg TargetOutcome :=
  Fallible.attempt (.ext (.process cfg configFp rt)) id id

def noteAssembled (run : RunId) (report : RunReport) : RunProg Unit :=
  Fallible.attempt (.ext (.assembled run report)) (id : OrchestratorError → _) fun _ => .ok ()

end RunOp

section

variable [Serde] [Digest]

def seqMax : Int := 9223372036854775807

/-- Store the trusted configuration for a later resume. -/
def persistTrusted (run : RunId) (trusted : TrustedConfig) : RunProg Unit := do
  let bytes ← Fallible.ofExcept
    (serdeResult "cannot serialize trusted config" (Serde.trustedPretty trusted))
  RunHandle.recordStep run "setup" (-1) "setup" (sha256Hex bytes)
  RunHandle.beginStep run "setup"
  let _ ← RunHandle.publishArtifact run "config.json" bytes "config" "setup"
  RunHandle.finishStep run "setup" .succeeded none

def loadTrusted (run : RunId) : RunProg TrustedConfig := do
  match ← readRunArtifact run "config.json" with
  | none => throw (.config "run has no persisted config.json (cannot resume)")
  | some bytes =>
    Fallible.ofExcept (serdeResult "cannot parse stored config.json" (Serde.parseTrusted bytes))

def persistReport (run : RunId) (report : RunReport) : RunProg Unit := do
  let bytes ← Fallible.ofExcept
    (serdeResult "failed to serialize report" (Serde.reportPretty report))
  RunHandle.recordStep run "report" seqMax "report" (sha256Hex bytes)
  RunHandle.beginStep run "report"
  let _ ← RunHandle.publishArtifact run "report.json" bytes "report" "report"
  RunHandle.finishStep run "report" .succeeded none

variable [WordChars]

/-- The run body shared by `run` and `resume`. -/
def driveRun (run : RunId) (base head : Text) (trusted : TrustedConfig) (injected : Bool) :
    RunProg RunReport := do
  let analysis ← Fallible.attempt (.ext (.analyze run base head trusted injected)) id id
  let runConfig := { runConfigFrom trusted with surfaceEvidence := injected }
  let configFp := configFingerprint trusted
  let outcomes ← driveTargets run analysis.ranked configFp (RunOp.callProcess runConfig configFp)
  let warnings := (analysis.configWarnings ++ analysis.sandboxWarnings).map (redact · |>.text)
  let report := assembleReport run analysis.workdir base head trusted.mode
    (runConfig.strategy.resolve trusted.mode) analysis.ranked outcomes warnings
  RunOp.noteAssembled run report
  persistReport run report
  return report

def runJitGeneration (opts : RunOptions) (injected : Bool) : RunProg RunReport := do
  let opened ← Fallible.attempt (.ext (.openRepo opts)) id id
  Fallible.attempt (.ext (.ensureOutsideRepo opened.stateRoot opts.repo)) id id
  Fallible.attempt (.ext (.openStore opened.stateRoot)) id id
  let run := deriveRunId opened.repoAbs opened.base opened.head opts.trusted.mode
  RunStore.createRun
    { runId := run
      repoPath := opened.repoAbs
      baseRef := opened.base
      headRef := opened.head
      mode := opts.trusted.mode.asStr
      schemaVersion := stateSchemaVersion
      status := "running" }
  RunStore.setRunStatus run "running"
  persistTrusted run opts.trusted
  let report ← driveRun run opened.base opened.head opts.trusted injected
  RunStore.setRunStatus run "completed"
  return report

/-- The row of a run, which must be in the index. -/
def requireRun (run : RunId) : RunProg RunMeta := do
  match ← RunStore.getRun run with
  | none => throw (.invalid "run-id"
      (("no run " : Text) ++ debugQuoted run ++ " in the state index"))
  | some info => return info

def resumeRun (stateRoot : Text) (run : RunId) : RunProg RunReport := do
  Fallible.attempt (.ext (.openStore stateRoot)) id id
  let info ← requireRun run
  Fallible.attempt (.ext (.ensureOutsideRepo stateRoot info.repoPath)) id id
  let revs ← Fallible.attempt (.ext (.reopenRepo info)) id id
  RunStore.openRun run
  let trusted ← loadTrusted run
  RunStore.setRunStatus run "running"
  let report ← driveRun run revs.1 revs.2 trusted false
  RunStore.setRunStatus run "completed"
  return report

/-- Load the stored report of a completed run. -/
def loadReport (stateRoot : Text) (run : RunId) : RunProg RunReport := do
  Fallible.attempt (.ext (.openStore stateRoot)) id id
  let info ← requireRun run
  Fallible.attempt (.ext (.ensureOutsideRepo stateRoot info.repoPath)) id id
  if info.status ≠ "completed" then
    throw (.invalid "run-id" (("run " : Text) ++ debugQuoted run ++
      " is not in a completed state (status: " ++ info.status ++
      "); no current report is available — it may be mid-run, or a re-run may have failed. " ++
      "Use `jitgen resume` to finish it."))
  else do
    RunStore.openRun run
    match ← readRunArtifact run "report.json" with
    | none => throw (.invalid "run-id" (("run " : Text) ++ debugQuoted run ++
        " has no report.json (it may not have finished)"))
    | some bytes =>
      Fallible.ofExcept (serdeResult "cannot parse stored report.json" (Serde.parseReport bytes))

/-- One use of the command line that drives a run. -/
inductive Invocation where
  | run (opts : RunOptions) (injected : Bool)
  | resume (stateRoot : Text) (run : RunId)
  deriving DecidableEq

def Invocation.program : Invocation → RunProg RunReport
  | .run opts injected => runJitGeneration opts injected
  | .resume stateRoot id => resumeRun stateRoot id

end

end Jitgen
