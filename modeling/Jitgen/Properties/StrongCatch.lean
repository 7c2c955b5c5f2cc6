import Jitgen.Orchestrator.Doubles
import Jitgen.Orchestrator.Stages

/-!
# Evidence behind a strong catch

Both strategies end a confirmed weak catch in the same way: the flake filter observed a stable weak
catch, one more paired run is assessed, and the rule gate reads that pair.
-/

namespace Jitgen

open Fallible

/-- What the rule gate requires of the assessed pair. -/
structure GateEvidence (exec : CatchExecution) : Prop where
  base_passed : exec.base.outcome = .passed
  head_failed : exec.head.outcome = .failed
  assertion : hasMarker assertionMarkers (headBlob exec) = true
  no_env : hasMarker envMarkers (headBlob exec) = false

private theorem headSignal_ge_gate {exec : CatchExecution}
    (h : Binary64.le gateHeadSignalMin (headSignal exec) = true) :
    hasMarker assertionMarkers (headBlob exec) = true ∧
      hasMarker envMarkers (headBlob exec) = false := by
  unfold headSignal at h
  split_ifs at h with henv hassert
  · exact absurd h (by decide)
  · exact ⟨hassert, by simpa using henv⟩
  · exact absurd h (by decide)

private theorem gatePass_evidence {exec : CatchExecution} {stable : Bool}
    (h : (assessRules exec stable).gatePass = true) : GateEvidence exec := by
  simp only [assessRules, evidenceClean, ExecutionResult.passed, Bool.and_eq_true,
    beq_iff_eq] at h
  obtain ⟨⟨⟨hbase, hhead⟩, -⟩, hsig⟩ := h
  obtain ⟨hassert, henv⟩ := headSignal_ge_gate hsig
  exact ⟨hbase, hhead, hassert, henv⟩

private theorem catchDecision_strong {cfg : AssessConfig} {gatePass : Bool} {p : Binary64}
    (h : catchDecision cfg gatePass p = .strongCatch) : gatePass = true := by
  unfold catchDecision at h
  split_ifs at h with hstrong
  exact (Bool.and_eq_true _ _ ▸ hstrong).1

section

variable [WordChars]

private theorem assessWith_strong {exec : CatchExecution} {stable : Bool} {cfg : AssessConfig}
    {sig : JudgeSignal} (h : (assessWith exec stable cfg sig).decision = .strongCatch) :
    GateEvidence exec :=
  gatePass_evidence (catchDecision_strong h)

variable [JsonText]

private theorem assess_strong {exec : CatchExecution} {stable : Bool}
    {context : Option ContextBundle} {judge : Bool} {cfg : AssessConfig} {t : Trace Ans}
    {a : WeakCatchAssessment} (h : (assess exec stable context judge cfg).Runs t a)
    (hs : a.decision = .strongCatch) :
    GateEvidence exec := by
  unfold assess at h
  split_ifs at h
  · obtain ⟨x, t', -, -, rfl⟩ := h
    exact assessWith_strong hs
  · obtain ⟨-, rfl⟩ := h
    exact assessWith_strong hs

/-- The report is about a candidate for which `reruns + 1` flake trials, all observed as weak
catches, and then one more pair stand together in the trace; that pair was assessed next, and the
report is what came of it. -/
structure StrongEvidence (p : Pipeline) (t : Trace Ans) (report : CatchReport)
    (c : TestCandidate) (ps : List (ExecutionResult × ExecutionResult)) (exec : CatchExecution) :
    Prop where
  path_eq : report.path = (redact c.relPath).text
  source_eq : report.source = (redact c.source).text
  trials : ps.length = p.cfg.reruns + 1
  observed : ∀ p ∈ ps, p.1.outcome = .passed ∧ p.2.outcome = .failed
  gate : GateEvidence exec
  assessed : ∃ t₀ t' t₁ mutant a,
    t = t₀ ++ pairedRuns c (ps ++ [(exec.base, exec.head)]) ++ t' ++ t₁ ∧
      (assess exec true (some p.context) p.cfg.realLlm p.cfg.assessCfg).Runs t' a ∧
      report = p.assessedReport c exec mutant a

theorem StrongEvidence.append {p : Pipeline} {t : Trace Ans} {report : CatchReport}
    {c : TestCandidate} {ps : List (ExecutionResult × ExecutionResult)} {exec : CatchExecution}
    (h : StrongEvidence p t report c ps exec) (t₁ t₂ : Trace Ans) :
    StrongEvidence p (t₁ ++ t ++ t₂) report c ps exec := by
  obtain ⟨t₀, t', t₃, mutant, a, rfl, hassessed⟩ := h.assessed
  refine { h with assessed := ⟨t₁ ++ t₀, t', t₃ ++ t₂, mutant, a, ?_, hassessed⟩ }
  simp only [List.append_assoc]

/-- The report is weak or uncertain, or it has its evidence in the trace. -/
def Supported (p : Pipeline) (t : Trace Ans) (report : CatchReport) : Prop :=
  report.decision = .strongCatch → ∃ c ps exec, StrongEvidence p t report c ps exec

theorem Supported.append {p : Pipeline} {t : Trace Ans} {report : CatchReport}
    (h : Supported p t report) (t₁ t₂ : Trace Ans) :
    Supported p (t₁ ++ t ++ t₂) report := by
  intro hs
  obtain ⟨c, ps, exec, he⟩ := h hs
  exact ⟨c, ps, exec, he.append t₁ t₂⟩

namespace Pipeline

variable {p : Pipeline} {t : Trace Ans} {out out' : TargetOutcome}

/-- What a stage reports after enough observed weak catches has its evidence: the last of them. -/
private theorem Settled.supported {n : Nat} (hn : p.cfg.reruns + 1 ≤ n)
    (h : p.Settled n out t out') :
    ∀ r ∈ out'.catches, r ∈ out.catches ∨ Supported p t r := by
  cases h with
  | accepted t a => exact fun r hr => .inl hr
  | rejected t r' => exact fun r hr => .inl hr
  | reported c ps exec mutant a t t' trials observed assessed =>
    intro r hr
    rcases List.mem_append.mp hr with hr | hr
    · exact .inl hr
    · rw [List.mem_singleton.mp hr]
      apply Or.inr
      intro hs
      let m := ps.length - (p.cfg.reruns + 1)
      have hgate : GateEvidence exec := assess_strong assessed (by simpa using hs)
      have htrials : (ps.drop m).length = p.cfg.reruns + 1 := by
        rw [List.length_drop]
        omega
      have hblock : pairedRuns c (ps ++ [(exec.base, exec.head)]) =
          pairedRuns c (ps.take m) ++ pairedRuns c (ps.drop m ++ [(exec.base, exec.head)]) := by
        rw [pairedRuns, pairedRuns, pairedRuns, ← List.flatMap_append, ← List.append_assoc,
          List.take_append_drop]
      refine ⟨c, ps.drop m, exec, by simp, by simp, htrials, ?_, hgate, ?_⟩
      · exact fun q hq => observed q (List.mem_of_mem_drop hq)
      · rw [hblock]
        refine ⟨t ++ pairedRuns c (ps.take m), t', [], mutant, a, ?_, assessed, rfl⟩
        simp only [List.append_assoc, List.append_nil]

private theorem stage_supported (input : StageInput) (h : (p.stage input out).Returns t out') :
    ∀ r ∈ out'.catches, r ∈ out.catches ∨ Supported p t r := by
  have hn : p.cfg.reruns + 1 ≤ p.observations input := by
    cases input with
    | inl c => exact Nat.le_succ _
    | inr hc => exact le_rfl
  exact (stage_settles h).supported hn

end Pipeline

/-- Strong catch soundness: each report decided strong has its flake trials and the pair it was
assessed on in the trace, with the evidence the rule gate asks for. -/
theorem processTarget_strong_supported (rt : RankedTarget) (context : ContextBundle)
    (promptHints : List Text) (cfg : RunConfig) (t : Trace Ans) (out : TargetOutcome)
    (h : (processTarget rt context promptHints cfg).Returns t out) :
    ∀ r ∈ out.catches, r.decision = .strongCatch →
      ∃ c ps exec, StrongEvidence ⟨rt, context, promptHints, cfg⟩ t r c ps exec := by
  refine processTarget_induction
    (P := fun t out => ∀ r ∈ out.catches, Supported ⟨rt, context, promptHints, cfg⟩ t r) ?_ ?_ ?_ h
  · intro t out _ hnil r hr
    simp [hnil] at hr
  · intro t₁ t₂ out out' c hP hret r hr
    rcases Pipeline.stage_supported (.inl c) hret r hr with hr | hs
    · simpa using (hP r hr).append [] t₂
    · simpa using hs.append t₁ []
  · intro t₁ t₂ out out' hc _ hP hret r hr
    rcases Pipeline.stage_supported (.inr hc) hret r hr with hr | hs
    · simpa using (hP r hr).append [] t₂
    · simpa using hs.append t₁ []

end

/-- The scripted intent-aware run reports one strong catch, with its evidence in the trace. -/
theorem scriptedRun_strong_supported :
    letI := asciiWords
    letI := noJson
    let cfg := { RunConfig.default with mode := .catch }
    let run := scriptedRun cfg (fence "path: a\n@@") failsOffBase
    (outcomeOf run).catches.map (·.decision) = [.strongCatch] ∧
      ∀ r ∈ (outcomeOf run).catches, r.decision = .strongCatch →
        ∃ c ps exec, StrongEvidence ⟨sampleTarget, sampleContext, [], cfg⟩ run.2 r c ps exec :=
  letI := asciiWords
  letI := noJson
  have hrun : (scriptedRun { RunConfig.default with mode := .catch } (fence "path: a\n@@")
      failsOffBase).1.isOk = true ∧
      (outcomeOf (scriptedRun { RunConfig.default with mode := .catch } (fence "path: a\n@@")
        failsOffBase)).catches.map (·.decision) = [.strongCatch] := by decide +kernel
  ⟨hrun.2, processTarget_strong_supported sampleTarget sampleContext []
    { RunConfig.default with mode := .catch } _ _ (scriptedRun_returns hrun.1)⟩

end Jitgen
