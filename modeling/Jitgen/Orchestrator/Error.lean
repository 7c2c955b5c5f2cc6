import Jitgen.Feedback.Seam

/-!
# Errors of the orchestrator

Errors of lower layers are kept as their display text, except the ones the pipeline itself raises.
-/

namespace Jitgen

inductive OrchestratorError where
  | git (detail : Text)
  | git2 (detail : Text)
  | exec (e : ExecError)
  | state (detail : Text)
  | feedback (e : FeedbackError)
  | sandbox (detail : Text)
  | materialize (detail : Text)
  | core (detail : Text)
  | io (detail : Text)
  | config (detail : Text)
  | invalid (what detail : Text)
  deriving DecidableEq

def GenerationError.display : GenerationError → Text
  | .provider m => "LLM provider error: " ++ m
  | .config m => "LLM provider configuration error: " ++ m

def FeedbackError.display : FeedbackError → Text
  | .generation e => "generation failed: " ++ e.display
  | .execution e => "execution failed: " ++ e.message
  | .invalid what detail => "invalid " ++ what ++ ": " ++ detail

def OrchestratorError.display : OrchestratorError → Text
  | .git d => "git intake: " ++ d
  | .git2 d => "git: " ++ d
  | .exec e => "execute: " ++ e.message
  | .state d => "state: " ++ d
  | .feedback e => "feedback: " ++ e.display
  | .sandbox d => "sandbox: " ++ d
  | .materialize d => "materialize: " ++ d
  | .core d => "core: " ++ d
  | .io d => "io: " ++ d
  | .config d => "config: " ++ d
  | .invalid what detail => "invalid " ++ what ++ ": " ++ detail

end Jitgen
