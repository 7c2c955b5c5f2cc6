import Jitgen.Orchestrator.Error
import Jitgen.Report.Patch

/-!
# Report assembly and landing
-/

namespace Jitgen

def jitgenVersion : Text := "0.2.2"

/-- Assemble the run report from the outcomes of the ranked targets. -/
def assembleReport (runId repoPath base head : Text) (mode : Mode) (strategy : Strategy)
    (ranked : List RankedTarget) (outcomes : List TargetOutcome) (warnings : List Text) :
    RunReport :=
  let accepted := outcomes.flatMap (·.accepted)
  let catches := outcomes.flatMap (·.catches)
  let rejected := outcomes.flatMap (·.rejected)
  { schemaVersion := reportSchemaVersion
    jitgenVersion := jitgenVersion
    runId := runId
    repo := repoPath
    base := base
    head := head
    mode := mode
    strategy := strategy
    summary :=
      { targetsSelected := ranked.length
        candidatesGenerated := (outcomes.map (·.candidatesGenerated)).sum
        accepted := accepted.length
        catches := catches.length
        rejected := rejected.length }
    accepted := accepted
    catches := catches
    rejected := rejected
    warnings := warnings }

/-- Write one file into the repository through the confined writer. -/
structure LandOp where
  path : Text
  contents : Text
  deriving DecidableEq

abbrev LandAns (_ : LandOp) : Type := Except OrchestratorError Unit

def landFile (t : AcceptedTest) : Fallible OrchestratorError LandAns Unit :=
  Fallible.attempt ⟨t.path, t.source⟩ id id

def writeAll : List AcceptedTest → Fallible OrchestratorError LandAns (List Text)
  | [] => pure []
  | t :: ts => do
    landFile t
    let written ← writeAll ts
    return t.path :: written

/-- Land the accepted tests; a catch report is refused. -/
def applyToRepo (report : RunReport) : Fallible OrchestratorError LandAns (List Text) :=
  if report.mode = .catch then
    throw (.invalid "--write" "catch mode is report-only; refusing to write")
  else writeAll report.accepted

end Jitgen
