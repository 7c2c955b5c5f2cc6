import Jitgen.Core.Model

/-!
# The report data contract
-/

namespace Jitgen

def reportSchemaVersion : Nat := 1

inductive Severity where
  | high
  | medium
  | low
  deriving DecidableEq

def Severity.asStr : Severity → Text
  | .high => "high"
  | .medium => "medium"
  | .low => "low"

/-- The single severity mapping of every exporter; the probability does not enter it. -/
def severityOf (decision : CatchDecision) (_tpProbability : Binary64) : Severity :=
  match decision with
  | .strongCatch => .high
  | .uncertain => .medium
  | .strictlyWeak => .low

structure AcceptedTest where
  target : Text
  symbol : Option Text
  language : Text
  path : Text
  source : Text
  «class» : CatchClass
  reproduction : Text
  deriving DecidableEq

structure MutantInfo where
  id : Text
  riskDescription : Text
  path : Text
  deriving DecidableEq

structure CatchEvidence where
  baseExitCode : Option Int
  headExitCode : Option Int
  baseOutput : Text
  headOutput : Text
  deriving DecidableEq

structure CatchReport where
  target : Text
  language : Text
  path : Text
  source : Text
  «class» : CatchClass
  decision : CatchDecision
  tpProbability : Binary64
  bucket : TpBucket
  rationale : Text
  mutant : Option MutantInfo
  changedPath : Option Text
  changedLine : Option Nat
  reproduction : Text
  evidence : Option CatchEvidence
  deriving DecidableEq

/-- Build a catch report from an assessment plus the catch's identifying data. -/
def CatchReport.fromAssessment (target language path source : Text)
    (assessment : WeakCatchAssessment) (mutant : Option MutantInfo) (changedPath : Option Text)
    (changedLine : Option Nat) (reproduction : Text) (evidence : Option CatchEvidence) :
    CatchReport where
  target := target
  language := language
  path := path
  source := source
  «class» := .weakCatch
  decision := assessment.decision
  tpProbability := assessment.tpProbability
  bucket := assessment.bucket
  rationale := assessment.rationale
  mutant := mutant
  changedPath := changedPath
  changedLine := changedLine
  reproduction := reproduction
  evidence := evidence

structure RejectedCandidate where
  target : Text
  path : Text
  reason : Text
  «class» : Option CatchClass
  deriving DecidableEq

structure RunSummary where
  targetsSelected : Nat
  candidatesGenerated : Nat
  accepted : Nat
  catches : Nat
  rejected : Nat
  deriving DecidableEq

structure RunReport where
  schemaVersion : Nat
  jitgenVersion : Text
  runId : Text
  repo : Text
  base : Text
  head : Text
  mode : Mode
  strategy : Strategy
  summary : RunSummary
  accepted : List AcceptedTest
  catches : List CatchReport
  rejected : List RejectedCandidate
  warnings : List Text
  deriving DecidableEq

/-- Accepted, reported and rejected results of one target. -/
structure TargetOutcome where
  accepted : List AcceptedTest
  catches : List CatchReport
  rejected : List RejectedCandidate
  candidatesGenerated : Nat
  deriving DecidableEq

def TargetOutcome.default : TargetOutcome := ⟨[], [], [], 0⟩

def TargetOutcome.accept (out : TargetOutcome) (t : AcceptedTest) : TargetOutcome :=
  { out with accepted := out.accepted ++ [t] }

def TargetOutcome.reportCatch (out : TargetOutcome) (c : CatchReport) : TargetOutcome :=
  { out with catches := out.catches ++ [c] }

def TargetOutcome.reject (out : TargetOutcome) (r : RejectedCandidate) : TargetOutcome :=
  { out with rejected := out.rejected ++ [r] }

section

variable (out : TargetOutcome)

@[simp] theorem TargetOutcome.accept_accepted (t : AcceptedTest) :
    (out.accept t).accepted = out.accepted ++ [t] := rfl

@[simp] theorem TargetOutcome.accept_catches (t : AcceptedTest) :
    (out.accept t).catches = out.catches := rfl

@[simp] theorem TargetOutcome.reportCatch_accepted (c : CatchReport) :
    (out.reportCatch c).accepted = out.accepted := rfl

@[simp] theorem TargetOutcome.reportCatch_catches (c : CatchReport) :
    (out.reportCatch c).catches = out.catches ++ [c] := rfl

@[simp] theorem TargetOutcome.reject_accepted (r : RejectedCandidate) :
    (out.reject r).accepted = out.accepted := rfl

@[simp] theorem TargetOutcome.reject_catches (r : RejectedCandidate) :
    (out.reject r).catches = out.catches := rfl

end

end Jitgen
