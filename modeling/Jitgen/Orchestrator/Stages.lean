import Jitgen.Orchestrator.Process

/-!
# Stages of a target

A generated candidate goes through one stage, which settles it in one of the three lists. A run of a
target is its generation and then one stage for each candidate.
-/

namespace Jitgen

open Fallible

variable [WordChars] [JsonText]

namespace Pipeline

/-- What a stage works on. -/
abbrev StageInput := TestCandidate ⊕ HarvestedCatch

def stage (p : Pipeline) : StageInput → TargetOutcome → Feedback TargetOutcome
  | .inl c, out => p.candidate c out
  | .inr h, out => p.harvested h out

/-- How often in a row a stage observes a weak catch before it reports one. A candidate was run once
more than a harvested catch, by the trial that ended its repair. -/
def observations (p : Pipeline) : StageInput → Nat
  | .inl _ => p.cfg.reruns + 2
  | .inr _ => p.cfg.reruns + 1

/-- The ways a stage ends. A report follows `n` observed weak catches and one more pair, which is the
one that is assessed. -/
inductive Settled (p : Pipeline) (n : Nat) (out : TargetOutcome) :
    Trace Ans → TargetOutcome → Prop
  | accepted (t : Trace Ans) (a : AcceptedTest) : Settled p n out t (out.accept a)
  | rejected (t : Trace Ans) (r : RejectedCandidate) : Settled p n out t (out.reject r)
  | reported (c : TestCandidate) (ps : List (ExecutionResult × ExecutionResult))
      (exec : CatchExecution) (mutant : Option MutantInfo) (a : WeakCatchAssessment)
      (t t' : Trace Ans) (trials : ps.length = n)
      (observed : ∀ q ∈ ps, q.1.outcome = .passed ∧ q.2.outcome = .failed)
      (assessed : (assess exec true (some p.context) p.cfg.realLlm p.cfg.assessCfg).Runs t' a) :
      Settled p n out (t ++ pairedRuns c (ps ++ [(exec.base, exec.head)]) ++ t')
        (out.reportCatch (p.assessedReport c exec mutant a))

variable {p : Pipeline} {c : TestCandidate} {t : Trace Ans} {out out' : TargetOutcome}

private theorem assessedRun_settles {mutant : Option MutantInfo} {t₁ t₂ : Trace Ans}
    {stable : FlakeReport} (t₀ : Trace Ans) {before : List (ExecutionResult × ExecutionResult)}
    (hbefore : ∀ q ∈ before, q.1.outcome = .passed ∧ q.2.outcome = .failed)
    (hflake : (flakeFilterCatch c p.cfg.reruns).Returns t₁ stable)
    (hclass : stable.class = .weakCatch)
    (h : (pairedRun c >>= fun exec => p.reportAssessedCatch c exec mutant out).Returns t₂ out') :
    p.Settled (before.length + (p.cfg.reruns + 1)) out
      (t₀ ++ pairedRuns c before ++ (t₁ ++ t₂)) out' := by
  obtain ⟨ps, hlen, rfl, hps⟩ := flakeFilterCatch_weakCatch hflake hclass
  obtain ⟨exec, t', a, rfl, ha, rfl⟩ := returns_assessedRun h
  have htrace : t₀ ++ pairedRuns c before ++ (pairedRuns c ps ++
      ranCandidate c .base exec.base :: ranCandidate c .head exec.head :: t') =
      t₀ ++ pairedRuns c ((before ++ ps) ++ [(exec.base, exec.head)]) ++ t' := by
    simp [pairedRuns]
  have hobserved : ∀ q ∈ before ++ ps, q.1.outcome = .passed ∧ q.2.outcome = .failed := by
    intro q hq
    rcases List.mem_append.mp hq with hq | hq
    · exact hbefore q hq
    · exact hps q hq
  rw [htrace]
  exact .reported c (before ++ ps) exec mutant a t₀ t' (by simp [hlen]) hobserved ha

private theorem classifyStable_settles {path : Text} {t₀ t₁ t₂ t₃ : Trace Ans}
    {stable : FlakeReport} (hgoal : GoalTrial c p.cfg.mode t₁)
    (hflake : (p.flakeFilter c).Returns t₂ stable)
    (h : (p.classifyStable c path stable.class out).Returns t₃ out') :
    p.Settled (p.cfg.reruns + 2) out (t₀ ++ t₁ ++ (t₂ ++ t₃)) out' := by
  rcases returns_classifyStable h with ⟨r, hout⟩ | ⟨a, hout, -, -, -⟩ | ⟨hmode, hclass, h⟩
  · rw [hout]
    exact .rejected _ _
  · rw [hout]
    exact .accepted _ _
  · simp only [flakeFilter, hmode] at hflake
    rw [hmode] at hgoal
    obtain ⟨base, head, rfl, hweak⟩ := hgoal.catch
    have hcount : [(base, head)].length + (p.cfg.reruns + 1) = p.cfg.reruns + 2 := by
      simp only [List.length_singleton]
      omega
    rw [← hcount]
    have hpast : ∀ q ∈ [(base, head)], q.1.outcome = .passed ∧ q.2.outcome = .failed := by
      simpa using hweak
    exact assessedRun_settles t₀ hpast hflake hclass h

private theorem candidate_settles {initial : TestCandidate}
    (hret : (p.candidate initial out).Returns t out') : p.Settled (p.cfg.reruns + 2) out t out' := by
  rcases returns_candidate hret with ⟨r, hout⟩ | hclassified
  · rw [hout]
    exact .rejected _ _
  · have ⟨t₁, t₂, t₃, report, stable, ht, hrepair, haccepted, hflake, h⟩ := hclassified
    have ⟨_, t₀, t₀', ht₁, hgoal⟩ := repairLoop_accepted hrepair haccepted
    rw [ht, ht₁]
    exact classifyStable_settles hgoal hflake h

private theorem harvested_settles {hc : HarvestedCatch} (h : (p.harvested hc out).Returns t out') :
    p.Settled (p.cfg.reruns + 1) out t out' := by
  rcases returns_harvested h with ⟨r, hout⟩ | ⟨t₁, t₂, stable, ht, hflake, hclass, h⟩
  · rw [hout]
    exact .rejected _ _
  · have hpast : ∀ q ∈ ([] : List (ExecutionResult × ExecutionResult)),
        q.1.outcome = .passed ∧ q.2.outcome = .failed := nofun
    rw [ht]
    simpa [pairedRuns] using assessedRun_settles [] hpast hflake hclass h

theorem stage_settles {input : StageInput} (h : (p.stage input out).Returns t out') :
    p.Settled (p.observations input) out t out' := by
  cases input with
  | inl c => exact candidate_settles h
  | inr hc => exact harvested_settles h

/-- A stage that was run: its input, the outcome before it and after it, and its events. -/
structure StageRun (p : Pipeline) where
  input : StageInput
  before : TargetOutcome
  events : Trace Ans
  after : TargetOutcome
  ran : (p.stage input before).Returns events after

/-- Stages that follow one another, from the first outcome to the last. -/
inductive Chain (p : Pipeline) : TargetOutcome → List p.StageRun → TargetOutcome → Prop
  | nil (out : TargetOutcome) : Chain p out [] out
  | cons (s : p.StageRun) {rest : List p.StageRun} {out : TargetOutcome}
      (h : Chain p s.after rest out) : Chain p s.before (s :: rest) out

theorem Chain.append {ss ss' : List p.StageRun} {mid : TargetOutcome} (h : p.Chain out ss mid)
    (h' : p.Chain mid ss' out') : p.Chain out (ss ++ ss') out' := by
  induction h with
  | nil out => exact h'
  | cons s _ ih => exact .cons s (ih h')

private theorem chain_nil (h : p.Chain out [] out') : out = out' := by
  cases h
  rfl

theorem chain_singleton {s : p.StageRun} (h : p.Chain out [s] out') :
    s.before = out ∧ s.after = out' := by
  cases h with
  | cons _ h => exact ⟨rfl, chain_nil h⟩

private theorem chain_of_foldlM {α : Type} {f : α → StageInput} {l : List α}
    (h : (l.foldlM (fun out x => p.stage (f x) out) out).Returns t out') :
    ∃ ss, p.Chain out ss out' ∧ ss.map (·.input) = l.map f ∧ t = ss.flatMap (·.events) := by
  induction l generalizing out t with
  | nil =>
    obtain ⟨rfl, rfl⟩ := returns_pure.mp h
    exact ⟨[], .nil _, rfl, rfl⟩
  | cons x l ih =>
    rw [List.foldlM_cons] at h
    obtain ⟨t₁, t₂, mid, rfl, hfirst, hrest⟩ := returns_bind.mp h
    obtain ⟨ss, hchain, hinputs, rfl⟩ := ih hrest
    let first : p.StageRun := ⟨f x, out, t₁, mid, hfirst⟩
    exact ⟨first :: ss, .cons first hchain, by simp [first, hinputs], by simp [first]⟩

end Pipeline

/-- What the stages of a run start from. -/
def GenerationOutcome.initial (g : GenerationOutcome) : TargetOutcome :=
  { TargetOutcome.default with
    candidatesGenerated := g.candidates.length + g.catches.length }

/-- A run of a target, by its generation and its stages. -/
structure TargetRun (rt : RankedTarget) (context : ContextBundle) (promptHints : List Text)
    (cfg : RunConfig) (t : Trace Ans) (out : TargetOutcome) where
  generation : Trace Ans
  generated : GenerationOutcome
  generates : (generateCandidates context (genTargetOf rt) cfg.strategy cfg.mode
    cfg.strategyCfg).Returns generation generated
  stages : List (Pipeline.StageRun ⟨rt, context, promptHints, cfg⟩)
  inputs : stages.map (·.input) = generated.candidates.map .inl ++ generated.catches.map .inr
  chain : Pipeline.Chain ⟨rt, context, promptHints, cfg⟩ generated.initial stages out
  trace_eq : t = generation ++ stages.flatMap (·.events)

theorem targetRun_of_returns {rt : RankedTarget} {context : ContextBundle}
    {promptHints : List Text} {cfg : RunConfig} {t : Trace Ans} {out : TargetOutcome}
    (h : (processTarget rt context promptHints cfg).Returns t out) :
    Nonempty (TargetRun rt context promptHints cfg t out) := by
  obtain ⟨t₁, t₂, g, rfl, hg, h⟩ := returns_bind.mp h
  obtain ⟨t₃, t₄, mid, rfl, hcs, hhs⟩ := returns_bind.mp h
  obtain ⟨ss, hchain, hinputs, rfl⟩ := Pipeline.chain_of_foldlM (f := Sum.inl) hcs
  obtain ⟨ss', hchain', hinputs', rfl⟩ := Pipeline.chain_of_foldlM (f := Sum.inr) hhs
  exact ⟨t₁, g, hg, ss ++ ss', by simp [hinputs, hinputs'], hchain.append hchain', by simp⟩

end Jitgen
