import Jitgen.Framework.Prog
import Jitgen.Llm.Candidate

/-!
# The provider and executor seam

The feedback layer reaches the model provider and the sandbox through three operations. Their
answers are arbitrary, so a program over them is verified against every provider and executor.
-/

namespace Jitgen

/-- Which revision a test or the existing suite executes against. -/
inductive Variant where
  | base
  | head
  | mutant (m : Mutant)
  deriving DecidableEq

/-- An opaque executor failure. -/
structure ExecError where
  message : Text
  deriving DecidableEq

inductive FeedbackError where
  | generation (e : GenerationError)
  | execution (e : ExecError)
  | invalid (what detail : Text)
  deriving DecidableEq

inductive PipelineOp where
  | generate (req : LlmRequest)
  | runCandidate (candidate : TestCandidate) (variant : Variant)
  | runExisting (variant : Variant)
  deriving DecidableEq

/-- Answer of an operation. -/
abbrev Ans : PipelineOp → Type
  | .generate _ => Except GenerationError LlmResponse
  | .runCandidate _ _ => Except ExecError ExecutionResult
  | .runExisting _ => Except ExecError ExecutionResult

instance : (o : PipelineOp) → DecidableEq (Ans o)
  | .generate _ => inferInstanceAs (DecidableEq (Except GenerationError LlmResponse))
  | .runCandidate _ _ => inferInstanceAs (DecidableEq (Except ExecError ExecutionResult))
  | .runExisting _ => inferInstanceAs (DecidableEq (Except ExecError ExecutionResult))

/-- Computations of the feedback layer. -/
abbrev Feedback (α : Type) := Fallible FeedbackError Ans α

def generate (req : LlmRequest) : Feedback LlmResponse :=
  Fallible.attempt (.generate req) FeedbackError.generation id

def runCandidate (candidate : TestCandidate) (variant : Variant) : Feedback ExecutionResult :=
  Fallible.attempt (.runCandidate candidate variant) FeedbackError.execution id

def runExisting (variant : Variant) : Feedback ExecutionResult :=
  Fallible.attempt (.runExisting variant) FeedbackError.execution id

/-- The event of one successful candidate run. -/
def ranCandidate (c : TestCandidate) (v : Variant) (r : ExecutionResult) : Event Ans :=
  ⟨.runCandidate c v, .ok r⟩

theorem returns_generate {req : LlmRequest} {t : Trace Ans} {r : LlmResponse} :
    (generate req).Returns t r ↔ t = [⟨.generate req, .ok r⟩] := by
  simp [generate, Fallible.returns_attempt]

theorem returns_runCandidate {c : TestCandidate} {v : Variant} {t : Trace Ans}
    {r : ExecutionResult} : (runCandidate c v).Returns t r ↔ t = [ranCandidate c v r] := by
  simp [runCandidate, Fallible.returns_attempt, ranCandidate]

theorem returns_runExisting {v : Variant} {t : Trace Ans} {r : ExecutionResult} :
    (runExisting v).Returns t r ↔ t = [⟨.runExisting v, .ok r⟩] := by
  simp [runExisting, Fallible.returns_attempt]

end Jitgen
