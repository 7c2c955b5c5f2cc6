import Jitgen.Feedback.Seam
import Jitgen.Feedback.Prompts

/-!
# Bounded repair loop
-/

namespace Jitgen

open Text

def maxFeedbackChars : Nat := 2000

inductive RepairOutcome where
  | accepted
  | exhausted
  | rejected
  deriving DecidableEq

structure RepairReport where
  outcome : RepairOutcome
  candidate : TestCandidate
  classified : ClassifiedResult
  attempts : Nat
  deriving DecidableEq

def classifySingle (result : ExecutionResult) : ClassifiedResult :=
  ⟨CatchClass.fromSingle result, none⟩

def classifyCatch (exec : CatchExecution) : ClassifiedResult := ⟨CatchClass.fromCatch exec, none⟩

def goalReached (mode : Mode) (c : CatchClass) : Bool :=
  match mode with
  | .harden => c == .hardenPass
  | .catch => c == .weakCatch

section

variable [WordChars]

/-- Redact and cap failure text, then fence it for the next prompt. -/
def fencedFeedback (kind raw : Text) : Text :=
  Prompts.fencedPreRedacted kind ((redact raw).text.take maxFeedbackChars)

def describeSingle (result : ExecutionResult) : Text :=
  fencedFeedback "repair_failure_head"
    ("previous attempt observed " ++ result.outcome.debug ++ "; captured output:\n" ++
      result.stdout ++ "\n" ++ result.stderr)

def describeCatch (base head : ExecutionResult) : Text :=
  fencedFeedback "repair_failure_catch"
    ("previous attempt: base observed " ++ base.outcome.debug ++ ", head observed " ++
      head.outcome.debug ++ "; head output:\n" ++ head.stdout ++ "\n" ++ head.stderr)

def describeValidation (validation : ValidationResult) : Text :=
  fencedFeedback "repair_validation"
    ("static validation rejected the test (do not use dangerous constructs): " ++
      join "; " validation.issues)

/-- One trial of a candidate: its observed class and the feedback for a repair. -/
def trial (candidate : TestCandidate) : Mode → Feedback (ClassifiedResult × Text)
  | .harden => do
    let head ← runCandidate candidate .head
    return (classifySingle head, describeSingle head)
  | .catch => do
    let base ← runCandidate candidate .base
    let head ← runCandidate candidate .head
    return (classifyCatch ⟨base, head⟩, describeCatch base head)

/-- The attempt number as the 16-bit field holds it. -/
def attemptField (attempt : Nat) : Nat := attempt % 2 ^ 16

/-- Attempt `0` is the initial candidate; a later one regenerates with the last feedback. -/
def attemptCandidate (template : LlmRequest) (initial : TestCandidate) (attempt : Nat)
    (candidate : TestCandidate) (lastFeedback : Text) : Feedback TestCandidate :=
  if attempt = 0 then pure candidate
  else do
    let resp ← generate { template with
      attempt := attemptField attempt, repairFeedback := some lastFeedback }
    return parseCandidate resp.raw initial.target initial.relPath (attemptField attempt)

def brokenResult : ClassifiedResult := ⟨.broken, none⟩

/-- The loop with `left` attempts to go. -/
def repairFrom (template : LlmRequest) (initial : TestCandidate) (mode : Mode)
    (maxAttempts : Nat) :
    Nat → TestCandidate → Option ClassifiedResult → Text → Feedback RepairReport
  | 0, candidate, lastClassified, _ =>
    pure ⟨.exhausted, candidate, lastClassified.getD brokenResult, maxAttempts⟩
  | left + 1, previous, _, lastFeedback => do
    let attempt := maxAttempts - (left + 1)
    let candidate ← attemptCandidate template initial attempt previous lastFeedback
    let validation := validateCandidate candidate.source
    -- a flagged candidate is never executed; its issues become the feedback
    if validation.ok = false then
      if attempt + 1 = maxAttempts then
        pure ⟨.rejected, candidate, brokenResult, attempt + 1⟩
      else
        repairFrom template initial mode maxAttempts left candidate none
          (describeValidation validation)
    else do
      let tried ← trial candidate mode
      if goalReached mode tried.1.class then
        pure ⟨.accepted, candidate, tried.1, attempt + 1⟩
      else
        repairFrom template initial mode maxAttempts left candidate (some tried.1) tried.2

/-- Drive a candidate towards the goal class of the mode. -/
def repairLoop (initial : TestCandidate) (template : LlmRequest) (mode : Mode)
    (maxAttempts : Nat) : Feedback RepairReport :=
  if maxAttempts = 0 then throw (.invalid "max_attempts" "must be >= 1")
  else repairFrom template initial mode maxAttempts maxAttempts initial none []

theorem returns_trial_harden {c : TestCandidate} {t : Trace Ans} {r : ClassifiedResult × Text} :
    (trial c .harden).Returns t r ↔
      ∃ head, t = [ranCandidate c .head head] ∧ r = (classifySingle head, describeSingle head) := by
  unfold trial
  simp only [Fallible.returns_bind, returns_runCandidate, Fallible.returns_pure]
  constructor
  · rintro ⟨_, _, head, rfl, rfl, rfl, rfl⟩
    exact ⟨head, rfl, rfl⟩
  · rintro ⟨head, rfl, rfl⟩
    exact ⟨_, [], head, rfl, rfl, rfl, rfl⟩

/-- A trial of `c` that reached the goal of the mode made the calls of `t`. -/
def GoalTrial (c : TestCandidate) (mode : Mode) (t : Trace Ans) : Prop :=
  ∃ r, (trial c mode).Returns t r ∧ goalReached mode r.1.class = true

theorem GoalTrial.harden {c : TestCandidate} {t : Trace Ans} (h : GoalTrial c .harden t) :
    ∃ r, t = [ranCandidate c .head r] ∧ r.outcome = .passed := by
  obtain ⟨_, hr, hgoal⟩ := h
  obtain ⟨head, rfl, rfl⟩ := returns_trial_harden.mp hr
  refine ⟨head, rfl, CatchClass.fromSingle_eq_hardenPass.mp ?_⟩
  simpa [goalReached, classifySingle] using hgoal

theorem returns_trial_catch {c : TestCandidate} {t : Trace Ans} {r : ClassifiedResult × Text} :
    (trial c .catch).Returns t r ↔
      ∃ base head, t = [ranCandidate c .base base, ranCandidate c .head head] ∧
        r = (classifyCatch ⟨base, head⟩, describeCatch base head) := by
  unfold trial
  simp only [Fallible.returns_bind, returns_runCandidate, Fallible.returns_pure]
  constructor
  · rintro ⟨_, _, base, rfl, rfl, _, _, head, rfl, rfl, rfl, rfl⟩
    exact ⟨base, head, rfl, rfl⟩
  · rintro ⟨base, head, rfl, rfl⟩
    exact ⟨_, _, base, rfl, rfl, _, [], head, rfl, rfl, rfl, rfl⟩

theorem GoalTrial.catch {c : TestCandidate} {t : Trace Ans} (h : GoalTrial c .catch t) :
    ∃ base head, t = [ranCandidate c .base base, ranCandidate c .head head] ∧
      base.outcome = .passed ∧ head.outcome = .failed := by
  obtain ⟨_, hr, hgoal⟩ := h
  obtain ⟨base, head, rfl, rfl⟩ := returns_trial_catch.mp hr
  have hweak : CatchClass.fromCatch ⟨base, head⟩ = .weakCatch := by
    simpa [goalReached, classifyCatch] using hgoal
  exact ⟨base, head, rfl, CatchClass.fromCatch_eq_weakCatch.mp hweak⟩

/-- What an accepted report guarantees: its candidate was screened and its own trial, the last
calls of the loop, reached the goal. -/
def AcceptedByTrial (mode : Mode) (t : Trace Ans) (report : RepairReport) : Prop :=
  report.outcome = .accepted →
    (validateCandidate report.candidate.source).ok = true ∧
      ∃ t₁ t₂, t = t₁ ++ t₂ ∧ GoalTrial report.candidate mode t₂

theorem AcceptedByTrial.append {mode : Mode} {t : Trace Ans} {report : RepairReport}
    (h : AcceptedByTrial mode t report) (t₀ : Trace Ans) :
    AcceptedByTrial mode (t₀ ++ t) report := by
  intro hacc
  obtain ⟨hok, t₁, t₂, rfl, hgoal⟩ := h hacc
  exact ⟨hok, t₀ ++ t₁, t₂, by simp, hgoal⟩

variable {template : LlmRequest} {initial : TestCandidate} {mode : Mode} {maxAttempts : Nat}

private theorem repairFrom_accepted {left : Nat} {previous : TestCandidate}
    {last : Option ClassifiedResult} {feedback : Text} {t : Trace Ans} {report : RepairReport}
    (h : (repairFrom template initial mode maxAttempts left previous last feedback).Returns t
      report) : AcceptedByTrial mode t report := by
  induction left generalizing previous last feedback t with
  | zero =>
    obtain ⟨rfl, rfl⟩ := Fallible.returns_pure.mp h
    intro hacc
    cases hacc
  | succ left ih =>
    rw [repairFrom] at h
    obtain ⟨t₁, t₂, c, rfl, -, h⟩ := Fallible.returns_bind.mp h
    apply AcceptedByTrial.append
    dsimp only at h
    split_ifs at h with hok hlast
    · obtain ⟨rfl, rfl⟩ := Fallible.returns_pure.mp h
      intro hacc
      cases hacc
    · exact ih h
    · obtain ⟨t₃, t₄, tried, rfl, htrial, h⟩ := Fallible.returns_bind.mp h
      split_ifs at h with hgoal
      · obtain ⟨rfl, rfl⟩ := Fallible.returns_pure.mp h
        exact fun _ => ⟨by simpa using hok, [], t₃, by simp, tried, htrial, hgoal⟩
      · exact (ih h).append t₃

theorem repairLoop_accepted {t : Trace Ans} {report : RepairReport}
    (h : (repairLoop initial template mode maxAttempts).Returns t report) :
    AcceptedByTrial mode t report := by
  unfold repairLoop at h
  split_ifs at h
  · exact absurd h Fallible.returns_throw
  · exact repairFrom_accepted h

end

end Jitgen
