import Jitgen.Adapters.Listing
import Jitgen.Orchestrator.Process

/-!
# Scripted doubles

Deterministic stand-ins for the provider, the executor and the parameters of the model, for runs on
concrete inputs. The provider answers every request with one reply.
-/

namespace Jitgen

def result (outcome : ExecOutcome) : ExecutionResult where
  outcome := outcome
  exitCode := some (if outcome = .passed then 0 else 1)
  durationMs := 1
  truncated := false
  stdout := []
  stderr := []

def resultWithStderr (outcome : ExecOutcome) (stderr : Text) : ExecutionResult :=
  { result outcome with stderr := stderr }

/-- Wrap a body in a bare code fence. -/
def fence (body : Text) : Text := ("```\n" : Text) ++ body ++ "\n```\n"

/-- One reply to every request, results by variant, and an existing suite that passes. -/
def scripted (reply : Text) (verdict : Variant → ExecutionResult) : Env Ans := fun _ o =>
  match o with
  | .generate _ => .ok ⟨reply⟩
  | .runCandidate _ v => .ok (verdict v)
  | .runExisting _ => .ok (result .passed)

/-- Every variant passes. -/
def allPass (_ : Variant) : ExecutionResult := result .passed

/-- The base passes and every other variant fails an assertion. -/
def failsOffBase : Variant → ExecutionResult
  | .base => result .passed
  | _ => resultWithStderr .failed "assertion failed"

def sampleTarget : RankedTarget where
  target :=
    { id := "t0"
      adapter := "rust"
      path := "src/a.rs"
      symbol := none
      kind := .function
      span := oneLine
      risk := halfRisk }
  score := .half
  rationale := []

def sampleContext : ContextBundle := ⟨"t0", [], ⟨8000, 12, 65536⟩, false⟩

/-- No word characters beyond ASCII. -/
abbrev asciiWords : WordChars := ⟨fun _ => false⟩

/-- A reader that rejects every text. -/
abbrev noJson : JsonText := ⟨fun _ => none⟩

/-- Outcome and trace of a scripted run of the sample target. -/
def scriptedRun (cfg : RunConfig) (reply : Text) (verdict : Variant → ExecutionResult) :
    Except FeedbackError TargetOutcome × Trace Ans :=
  letI := asciiWords
  letI := noJson
  (processTarget sampleTarget sampleContext [] cfg).run.run (scripted reply verdict) []

/-- The outcome of a run, empty when it ended with an error. -/
def outcomeOf (r : Except FeedbackError TargetOutcome × Trace Ans) : TargetOutcome :=
  match r.1 with
  | .ok out => out
  | .error _ => .default

theorem returns_of_run_eq {α : Type} {p : Feedback α} {env : Env Ans} {a : α}
    (h : (p.run.run env []).1 = .ok a) : p.Returns (p.run.run env []).2 a := by
  have hrun := Prog.runs_run env p.run []
  rw [h] at hrun
  exact hrun

theorem returns_of_run {p : Feedback TargetOutcome} {env : Env Ans}
    (h : (p.run.run env []).1.isOk = true) :
    p.Returns (p.run.run env []).2 (outcomeOf (p.run.run env [])) := by
  cases hr : (p.run.run env []).1 with
  | error e =>
    rw [hr] at h
    cases h
  | ok out =>
    unfold outcomeOf
    rw [hr]
    exact returns_of_run_eq hr

theorem scriptedRun_returns {cfg : RunConfig} {reply : Text} {verdict : Variant → ExecutionResult}
    (h : (scriptedRun cfg reply verdict).1.isOk = true) :
    letI := asciiWords
    letI := noJson
    (processTarget sampleTarget sampleContext [] cfg).Returns (scriptedRun cfg reply verdict).2
      (outcomeOf (scriptedRun cfg reply verdict)) :=
  returns_of_run h

/-- The candidate the sample target gets for a source. -/
def sampleCandidate (source : Text) : TestCandidate :=
  ⟨"t0", "tests/jitgen_a_t0.rs", source, none, 0⟩

end Jitgen
