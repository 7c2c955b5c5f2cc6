import Jitgen.Orchestrator.Doubles

/-!
# The judge can only lower an assessment

The judge's score enters through a minimum with the rule probability, and the decision is monotone
in the combined probability whatever the thresholds are, a NaN included.
-/

namespace Jitgen

open Binary64

/-- Position in the order strictly weak, uncertain, strong. -/
def CatchDecision.rank : CatchDecision → Nat
  | .strictlyWeak => 0
  | .uncertain => 1
  | .strongCatch => 2

private theorem catchDecision_mono {cfg : AssessConfig} {gatePass : Bool} {a b : Binary64}
    (h : le a b = true) :
    (catchDecision cfg gatePass a).rank ≤ (catchDecision cfg gatePass b).rank := by
  by_cases hstrong : (gatePass && le cfg.strongThreshold b) = true
  · have hb : catchDecision cfg gatePass b = .strongCatch := by simp [catchDecision, hstrong]
    rw [hb]
    cases catchDecision cfg gatePass a <;> decide
  · have ha : ¬ (gatePass && le cfg.strongThreshold a) = true := by
      intro ha
      rw [Bool.and_eq_true] at ha
      exact hstrong (by simp [ha.1, le_trans ha.2 h])
    unfold catchDecision
    rw [if_neg hstrong, if_neg ha]
    by_cases hweak : le b cfg.weakThreshold = true
    · rw [if_pos hweak, if_pos (le_trans h hweak)]
    · rw [if_neg hweak]
      split <;> decide

private theorem headSignal_cases (exec : CatchExecution) :
    headSignal exec = .oneFifth ∨ headSignal exec = .one ∨ headSignal exec = .half := by
  unfold headSignal
  split_ifs <;> simp

private theorem probability_min_neutral (exec : CatchExecution) (stable : Bool) :
    (assessRules exec stable).probability.isNaN = false ∧
      (assessRules exec stable).probability.min neutralScore =
        (assessRules exec stable).probability := by
  simp only [assessRules]
  rcases headSignal_cases exec with h | h | h <;> rw [h] <;> cases evidenceClean exec <;>
    cases stable <;> decide +kernel

variable [WordChars]

private theorem assessWith_le_neutral (exec : CatchExecution) (stable : Bool) (cfg : AssessConfig)
    (sig : JudgeSignal) (rationale : Text) :
    let judged := assessWith exec stable cfg sig
    let unjudged := assessWith exec stable cfg (.neutral rationale)
    le judged.tpProbability unjudged.tpProbability = true ∧
      judged.decision.rank ≤ unjudged.decision.rank := by
  obtain ⟨hnan, hneutral⟩ := probability_min_neutral exec stable
  have hmin : le ((assessRules exec stable).probability.min sig.score)
      ((assessRules exec stable).probability.min neutralScore) = true := by
    rw [hneutral]
    exact min_le_left hnan
  have hclamp : le (clamp _ .zero .one) (clamp _ .zero .one) = true :=
    clamp_le_clamp (by decide) (by decide) (by decide) hmin
  exact ⟨hclamp, catchDecision_mono hclamp⟩

/-- Whatever the judge replies, and also when it fails, the assessment with the judge is not above
the assessment without it. -/
theorem assess_judge_only_lowers [JsonText] (exec : CatchExecution) (stable : Bool)
    (context : Option ContextBundle) (cfg : AssessConfig) (judge other : Env Ans)
    (h h' : Trace Ans) :
    let judged := ((assess exec stable context true cfg).run judge h).1
    let unjudged := ((assess exec stable context false cfg).run other h').1
    le judged.tpProbability unjudged.tpProbability = true ∧
      judged.decision.rank ≤ unjudged.decision.rank :=
  assessWith_le_neutral exec stable cfg _ _

end Jitgen
