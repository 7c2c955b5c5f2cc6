import Jitgen.Feedback.Repair
import Jitgen.Orchestrator.Doubles

/-!
# Outcomes of the repair loop

A run of the loop is a list of attempts, each with its own candidate and its own verdict. The report
is the conclusion of the last of them.
-/

namespace Jitgen

open Text

/-- What became of a candidate: static validation flagged it, or a trial gave a class. -/
inductive Verdict where
  | flagged
  | tried (r : ClassifiedResult × Text)

structure Attempt where
  candidate : TestCandidate
  verdict : Verdict

/-- The trial of the attempt reached the goal class. -/
def Attempt.Reached (mode : Mode) (a : Attempt) : Prop :=
  ∃ r, a.verdict = .tried r ∧ goalReached mode r.1.class = true

/-- The report that the last of `n` attempts gives. -/
structure Concludes (mode : Mode) (maxAttempts : Nat) (a : Attempt) (n : Nat)
    (report : RepairReport) : Prop where
  candidate : report.candidate = a.candidate
  attempts : report.attempts = n
  classified : ∀ r, a.verdict = .tried r → report.classified = r.1
  accepted : report.outcome = .accepted ↔ a.Reached mode
  rejected : report.outcome = .rejected ↔ a.verdict = .flagged
  spent : report.outcome ≠ .accepted → n = maxAttempts

section

variable {mode : Mode} {maxAttempts n : Nat} {c : TestCandidate}

private theorem concludes_flagged (hn : n = maxAttempts) :
    Concludes mode maxAttempts ⟨c, .flagged⟩ n ⟨.rejected, c, brokenResult, n⟩ where
  candidate := rfl
  attempts := rfl
  classified := fun _ h => by cases h
  accepted := by simp [Attempt.Reached]
  rejected := by simp
  spent := fun _ => hn

private theorem concludes_goal {r : ClassifiedResult × Text}
    (hgoal : goalReached mode r.1.class = true) :
    Concludes mode maxAttempts ⟨c, .tried r⟩ n ⟨.accepted, c, r.1, n⟩ where
  candidate := rfl
  attempts := rfl
  classified := fun _ h => by cases h; rfl
  accepted := by simp [Attempt.Reached, hgoal]
  rejected := by simp
  spent := fun h => absurd rfl h

private theorem concludes_failure {r : ClassifiedResult × Text}
    (hgoal : ¬ goalReached mode r.1.class = true) (hn : n = maxAttempts) :
    Concludes mode maxAttempts ⟨c, .tried r⟩ n ⟨.exhausted, c, r.1, n⟩ where
  candidate := rfl
  attempts := rfl
  classified := fun _ h => by cases h; rfl
  accepted := by simp [Attempt.Reached, hgoal]
  rejected := by simp
  spent := fun _ => hn

end

section

variable [WordChars]

/-- What the next attempt is told. -/
def Attempt.feedback (a : Attempt) : Text :=
  match a.verdict with
  | .flagged => describeValidation (validateCandidate a.candidate.source)
  | .tried r => r.2

/-- The calls `t` gave the verdict on the candidate; a flagged one is not executed. -/
def Attempt.Judged (mode : Mode) (a : Attempt) (t : Trace Ans) : Prop :=
  match a.verdict with
  | .flagged => (validateCandidate a.candidate.source).ok = false ∧ t = []
  | .tried r => (validateCandidate a.candidate.source).ok = true ∧
      (trial a.candidate mode).Returns t r

/-- The attempts from number `i` on and the calls they made, given the candidate and the feedback
that were left by the attempt before. -/
inductive Ledger (template : LlmRequest) (initial : TestCandidate) (mode : Mode) :
    Nat → TestCandidate → Text → List Attempt → Trace Ans → Prop
  | nil {i : Nat} {previous : TestCandidate} {feedback : Text} :
      Ledger template initial mode i previous feedback [] []
  | cons {i : Nat} {previous : TestCandidate} {feedback : Text} {a : Attempt}
      {attempts : List Attempt} {t₁ t₂ t₃ : Trace Ans} :
      (attemptCandidate template initial i previous feedback).Returns t₁ a.candidate →
      a.Judged mode t₂ →
      Ledger template initial mode (i + 1) a.candidate a.feedback attempts t₃ →
      Ledger template initial mode i previous feedback (a :: attempts) (t₁ ++ t₂ ++ t₃)

variable {template : LlmRequest} {initial : TestCandidate} {mode : Mode} {maxAttempts left : Nat}
  {previous : TestCandidate} {last : Option ClassifiedResult} {feedback : Text} {t : Trace Ans}
  {report : RepairReport}

/-- One attempt either gives the report or hands over to the next one. -/
private theorem repairFrom_step (hle : left + 1 ≤ maxAttempts)
    (h : (repairFrom template initial mode maxAttempts (left + 1) previous last feedback).Returns t
      report) :
    ∃ a t₁ t₂ t₃, t = t₁ ++ t₂ ++ t₃ ∧
      (attemptCandidate template initial (maxAttempts - (left + 1)) previous feedback).Returns t₁
        a.candidate ∧
      a.Judged mode t₂ ∧
      (t₃ = [] ∧ Concludes mode maxAttempts a (maxAttempts - left) report ∨
        ¬ a.Reached mode ∧ left ≠ 0 ∧ ∃ last',
          (repairFrom template initial mode maxAttempts left a.candidate last' a.feedback).Returns
            t₃ report) := by
  have hnumber : maxAttempts - (left + 1) + 1 = maxAttempts - left := by omega
  rw [repairFrom] at h
  obtain ⟨t₁, t', c, happend, hcandidate, h⟩ := Fallible.returns_bind.mp h
  dsimp only at h
  split_ifs at h with hok hlast
  · obtain ⟨hnil, hreport⟩ := Fallible.returns_pure.mp h
    refine ⟨⟨c, .flagged⟩, t₁, [], [], by simp [happend, hnil], hcandidate, ⟨hok, rfl⟩,
      .inl ⟨rfl, ?_⟩⟩
    rw [hreport, hnumber]
    exact concludes_flagged (by omega)
  · refine ⟨⟨c, .flagged⟩, t₁, [], t', by simp [happend], hcandidate, ⟨hok, rfl⟩,
      .inr ⟨by simp [Attempt.Reached], by omega, none, h⟩⟩
  · have hok : (validateCandidate c.source).ok = true := by simpa using hok
    obtain ⟨t₂, t₃, tried, happend', htrial, h⟩ := Fallible.returns_bind.mp h
    have hsplit : t = t₁ ++ t₂ ++ t₃ := by rw [happend, happend', List.append_assoc]
    refine ⟨⟨c, .tried tried⟩, t₁, t₂, t₃, hsplit, hcandidate, ⟨hok, htrial⟩, ?_⟩
    split_ifs at h with hgoal
    · obtain ⟨hnil, hreport⟩ := Fallible.returns_pure.mp h
      rw [hreport, hnumber]
      exact .inl ⟨hnil, concludes_goal hgoal⟩
    · cases left with
      | zero =>
        obtain ⟨hnil, hreport⟩ := Fallible.returns_pure.mp h
        rw [hreport]
        exact .inl ⟨hnil, concludes_failure hgoal rfl⟩
      | succ left => exact .inr ⟨by simp [Attempt.Reached, hgoal], by omega, _, h⟩

private theorem ledger_single {a : Attempt} {t₁ t₂ t₃ : Trace Ans} (hle : left + 1 ≤ maxAttempts)
    (happend : t = t₁ ++ t₂ ++ t₃)
    (hcandidate : (attemptCandidate template initial (maxAttempts - (left + 1)) previous
      feedback).Returns t₁ a.candidate)
    (hjudged : a.Judged mode t₂)
    (hend : t₃ = [] ∧ Concludes mode maxAttempts a (maxAttempts - left) report) :
    ∃ attempts b, Ledger template initial mode (maxAttempts - (left + 1)) previous feedback
        (attempts ++ [b]) t ∧
      (∀ c ∈ attempts, ¬ c.Reached mode) ∧ attempts.length ≤ left ∧
      Concludes mode maxAttempts b (maxAttempts - (left + 1) + attempts.length + 1) report := by
  have hnumber : maxAttempts - (left + 1) + 0 + 1 = maxAttempts - left := by omega
  refine ⟨[], a, ?_, by simp, Nat.zero_le left, ?_⟩
  · rw [happend, hend.1]
    exact .cons hcandidate hjudged .nil
  · rw [List.length_nil, hnumber]
    exact hend.2

/-- The attempts of a run, the last of which gives the report. -/
private theorem repairFrom_ledger (hle : left + 1 ≤ maxAttempts)
    (h : (repairFrom template initial mode maxAttempts (left + 1) previous last feedback).Returns t
      report) :
    ∃ attempts a, Ledger template initial mode (maxAttempts - (left + 1)) previous feedback
        (attempts ++ [a]) t ∧
      (∀ b ∈ attempts, ¬ b.Reached mode) ∧ attempts.length ≤ left ∧
      Concludes mode maxAttempts a (maxAttempts - (left + 1) + attempts.length + 1) report := by
  induction left generalizing previous last feedback t with
  | zero =>
    have ⟨a, t₁, t₂, t₃, happend, hcandidate, hjudged, hnext⟩ := repairFrom_step hle h
    have hend := hnext.resolve_right fun hrest => absurd rfl hrest.2.1
    exact ledger_single hle happend hcandidate hjudged hend
  | succ left ih =>
    have ⟨a, t₁, t₂, t₃, happend, hcandidate, hjudged, hnext⟩ := repairFrom_step hle h
    rcases hnext with hend | ⟨hgoal, _, last', hrest⟩
    · exact ledger_single hle happend hcandidate hjudged hend
    · have ⟨attempts, b, hledger, hnone, hlength, hconclude⟩ := ih (by omega) hrest
      have hindex : maxAttempts - (left + 1 + 1) + 1 = maxAttempts - (left + 1) := by omega
      have hnumber : maxAttempts - (left + 1 + 1) + (a :: attempts).length + 1 =
          maxAttempts - (left + 1) + attempts.length + 1 := by
        rw [List.length_cons]
        omega
      refine ⟨a :: attempts, b, ?_, ?_, Nat.succ_le_succ hlength, hnumber ▸ hconclude⟩
      · rw [happend]
        exact .cons hcandidate hjudged (hindex ▸ hledger)
      · intro c hc
        cases hc with
        | head => exact hgoal
        | tail _ hc => exact hnone c hc

/-- A candidate is for the target and the path of the initial one. -/
def KeepsTarget (initial c : TestCandidate) : Prop :=
  c.target = initial.target ∧ c.relPath = initial.relPath

omit [WordChars] in
private theorem keepsTarget_of_attemptCandidate {i : Nat} {c : TestCandidate}
    (hprevious : KeepsTarget initial previous)
    (h : (attemptCandidate template initial i previous feedback).Returns t c) :
    KeepsTarget initial c := by
  unfold attemptCandidate at h
  split_ifs at h
  · rw [(Fallible.returns_pure.mp h).2]
    exact hprevious
  · have ⟨_, _, resp, _, _, h⟩ := Fallible.returns_bind.mp h
    rw [(Fallible.returns_pure.mp h).2]
    exact ⟨rfl, rfl⟩

omit [WordChars] in
private theorem runs_attemptCandidate {i : Nat} {c : TestCandidate}
    (h : (attemptCandidate template initial i previous feedback).Returns t c) :
    ∀ e ∈ t, ∃ req, e.1 = .generate req := by
  unfold attemptCandidate at h
  split_ifs at h
  · rw [(Fallible.returns_pure.mp h).1]
    exact fun _ he => absurd he List.not_mem_nil
  · have ⟨_, _, resp, happend, hgenerate, h⟩ := Fallible.returns_bind.mp h
    rw [happend, (Fallible.returns_pure.mp h).1, returns_generate.mp hgenerate]
    intro e he
    rw [List.mem_singleton.mp he]
    exact ⟨_, rfl⟩

private theorem runs_trial {c : TestCandidate} {r : ClassifiedResult × Text}
    (h : (trial c mode).Returns t r) : ∀ e ∈ t, ∃ v, e.1 = .runCandidate c v := by
  cases mode with
  | harden =>
    have ⟨head, htrace, _⟩ := returns_trial_harden.mp h
    intro e he
    rw [htrace] at he
    rw [List.mem_singleton.mp he]
    exact ⟨_, rfl⟩
  | «catch» =>
    have ⟨base, head, htrace, _⟩ := returns_trial_catch.mp h
    intro e he
    rw [htrace] at he
    simp only [List.mem_cons, List.not_mem_nil, or_false] at he
    cases he with
    | inl he => exact ⟨_, congrArg Sigma.fst he⟩
    | inr he => exact ⟨_, congrArg Sigma.fst he⟩

section

variable {i : Nat} {attempts : List Attempt} {a : Attempt}

private theorem keepsTarget_of_ledger
    (h : Ledger template initial mode i previous feedback attempts t)
    (hprevious : KeepsTarget initial previous) :
    ∀ b ∈ attempts, KeepsTarget initial b.candidate := by
  induction h with
  | nil => exact fun _ h => absurd h List.not_mem_nil
  | cons hcandidate _ _ ih =>
    have hkept := keepsTarget_of_attemptCandidate hprevious hcandidate
    intro b hb
    cases hb with
    | head => exact hkept
    | tail _ hb => exact ih hkept b hb

/-- Only a candidate that passed validation is executed. -/
private theorem executed_of_ledger
    (h : Ledger template initial mode i previous feedback attempts t) :
    ∀ e ∈ t, ∀ c v, e.1 = .runCandidate c v → (validateCandidate c.source).ok = true := by
  induction h with
  | nil => exact fun _ h => absurd h List.not_mem_nil
  | @cons i previous feedback a attempts t₁ t₂ t₃ hcandidate hjudged _ ih =>
    intro e he c v hrun
    rcases List.mem_append.mp he with he | he
    · rcases List.mem_append.mp he with he | he
      · have ⟨req, hreq⟩ := runs_attemptCandidate hcandidate e he
        rw [hreq] at hrun
        cases hrun
      · cases hverdict : a.verdict with
        | flagged =>
          rw [Attempt.Judged, hverdict] at hjudged
          rw [hjudged.2] at he
          cases he
        | tried r =>
          rw [Attempt.Judged, hverdict] at hjudged
          have ⟨w, hw⟩ := runs_trial hjudged.2 e he
          rw [hw] at hrun
          cases hrun
          exact hjudged.1
    · exact ih e he c v hrun

private theorem judged_of_ledger
    (h : Ledger template initial mode i previous feedback (attempts ++ [a]) t) :
    ∃ t₀ t₁, t = t₀ ++ t₁ ∧ a.Judged mode t₁ := by
  induction attempts generalizing i previous feedback t with
  | nil =>
    cases h with
    | @cons _ _ _ _ _ t₁ t₂ _ _ hjudged hrest =>
      cases hrest
      exact ⟨t₁, t₂, List.append_nil _, hjudged⟩
  | cons b attempts ih =>
    cases h with
    | @cons _ _ _ _ _ t₁ t₂ t₃ _ _ hrest =>
      have ⟨t₀, t₁', happend, hjudged⟩ := ih hrest
      exact ⟨t₁ ++ t₂ ++ t₀, t₁', by simp [happend], hjudged⟩

end

/-- What a report of the loop says of the run `t` that gave it. -/
structure OutcomeLaw (initial : TestCandidate) (mode : Mode) (maxAttempts : Nat) (t : Trace Ans)
    (report : RepairReport) : Prop where
  /-- The last calls are the trial of the returned candidate, and its class is reported. -/
  tried : report.outcome ≠ .rejected → ∃ r t₀ t₁, t = t₀ ++ t₁ ∧
    (trial report.candidate mode).Returns t₁ r ∧ report.classified = r.1 ∧
    (report.outcome = .accepted ↔ goalReached mode r.1.class = true)
  flagged : report.outcome = .rejected ↔ (validateCandidate report.candidate.source).ok = false
  unexecuted : report.outcome = .rejected → ∀ e ∈ t, ∀ v, e.1 ≠ .runCandidate report.candidate v
  kept : report.candidate.target = initial.target ∧ report.candidate.relPath = initial.relPath
  attempts : 1 ≤ report.attempts ∧ report.attempts ≤ maxAttempts

private theorem outcomeLaw_of_ledger {attempts : List Attempt} {a : Attempt} {n : Nat}
    (h : Ledger template initial mode 0 initial [] (attempts ++ [a]) t)
    (hconclude : Concludes mode maxAttempts a (n + 1) report) (hn : n + 1 ≤ maxAttempts) :
    OutcomeLaw initial mode maxAttempts t report := by
  have ⟨t₀, t₁, happend, hjudged⟩ := judged_of_ledger h
  have hflagged : report.outcome = .rejected ↔
      (validateCandidate report.candidate.source).ok = false := by
    rw [hconclude.rejected, hconclude.candidate]
    unfold Attempt.Judged at hjudged
    cases hverdict : a.verdict with
    | flagged =>
      rw [hverdict] at hjudged
      exact ⟨fun _ => hjudged.1, fun _ => rfl⟩
    | tried r =>
      rw [hverdict] at hjudged
      rw [hjudged.1]
      simp
  constructor
  · intro hne
    cases hverdict : a.verdict with
    | flagged => exact absurd (hconclude.rejected.mpr hverdict) hne
    | tried r =>
      rw [Attempt.Judged, hverdict] at hjudged
      refine ⟨r, t₀, t₁, happend, ?_, hconclude.classified r hverdict, ?_⟩
      · rw [hconclude.candidate]
        exact hjudged.2
      · rw [hconclude.accepted]
        simp [Attempt.Reached, hverdict]
  · exact hflagged
  · intro hrejected e he v hrun
    have hok := executed_of_ledger h e he _ v hrun
    rw [hflagged.mp hrejected] at hok
    cases hok
  · rw [hconclude.candidate]
    exact keepsTarget_of_ledger h ⟨rfl, rfl⟩ a (by simp)
  · rw [hconclude.attempts]
    exact ⟨Nat.succ_pos n, hn⟩

/-- Every report of the loop concludes its last attempt: no candidate is paired with the class of
another attempt. -/
theorem repair_outcome (h : (repairLoop initial template mode maxAttempts).Returns t report) :
    OutcomeLaw initial mode maxAttempts t report ∧
      ∃ attempts a, Ledger template initial mode 0 initial [] (attempts ++ [a]) t ∧
        (∀ b ∈ attempts, ¬ b.Reached mode) ∧ report.candidate = a.candidate ∧
        report.attempts = attempts.length + 1 ∧
        (report.outcome = .accepted ↔ a.Reached mode) ∧
        (report.outcome = .rejected ↔ a.verdict = .flagged) ∧
        (report.outcome ≠ .accepted → report.attempts = maxAttempts) := by
  cases maxAttempts with
  | zero => exact absurd h Fallible.returns_throw
  | succ left =>
    have hstart : (repairFrom template initial mode (left + 1) (left + 1) initial none []).Returns t
        report := h
    have ⟨attempts, a, hledger, hnone, hlength, hconclude⟩ :=
      repairFrom_ledger (Nat.le_refl _) hstart
    rw [Nat.sub_self] at hledger
    rw [Nat.sub_self, Nat.zero_add] at hconclude
    have hlaw : OutcomeLaw initial mode (left + 1) t report :=
      outcomeLaw_of_ledger hledger hconclude (by omega)
    exact ⟨hlaw, attempts, a, hledger, hnone, hconclude.candidate, hconclude.attempts,
      hconclude.accepted, hconclude.rejected,
      fun hne => hconclude.attempts.trans (hconclude.spent hne)⟩

end

def bareTemplate : LlmRequest := ⟨⟨[], []⟩, .harden, .harden, "rust", none, 0, none⟩

/-- The loop on a flagged candidate, with a provider that then sends a passing test. -/
def repairedRun : Except FeedbackError RepairReport × Trace Ans :=
  letI := asciiWords
  (repairLoop (sampleCandidate "os.system(x)") bareTemplate .harden 3).run.run
    (scripted (fence "check();") allPass) []

theorem repair_outcome_second_attempt :
    letI := asciiWords
    OutcomeLaw (sampleCandidate "os.system(x)") .harden 3 repairedRun.2
      ⟨.accepted, { sampleCandidate "check();" with attempt := 1 }, ⟨.hardenPass, none⟩, 2⟩ := by
  let _ := asciiWords
  have hrun : repairedRun.1 = .ok
      ⟨.accepted, { sampleCandidate "check();" with attempt := 1 }, ⟨.hardenPass, none⟩, 2⟩ := by
    decide +kernel
  exact (repair_outcome (returns_of_run_eq hrun)).1

end Jitgen
