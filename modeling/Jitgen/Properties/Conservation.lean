import Jitgen.Orchestrator.Doubles
import Jitgen.Orchestrator.Report
import Jitgen.Orchestrator.Stages

/-!
# Conservation of candidates

Each stage settles its candidate once, so no generated candidate is lost or counted twice, in the
outcome of a target or in the report of a run.
-/

namespace Jitgen

/-- How many candidates the lists of an outcome hold. -/
def TargetOutcome.settled (out : TargetOutcome) : Nat :=
  out.accepted.length + out.catches.length + out.rejected.length

def TargetOutcome.Conserved (out : TargetOutcome) : Prop := out.settled = out.candidatesGenerated

def RunSummary.Conserved (s : RunSummary) : Prop :=
  s.accepted + s.catches + s.rejected = s.candidatesGenerated

/-- Each count of the summary is the length of its list and the sum over the targets. -/
structure Tallies (report : RunReport) (outcomes : List TargetOutcome) : Prop where
  accepted : report.summary.accepted = report.accepted.length
  accepted_sum : report.summary.accepted = (outcomes.map (·.accepted.length)).sum
  catches : report.summary.catches = report.catches.length
  catches_sum : report.summary.catches = (outcomes.map (·.catches.length)).sum
  rejected : report.summary.rejected = report.rejected.length
  rejected_sum : report.summary.rejected = (outcomes.map (·.rejected.length)).sum
  generated_sum : report.summary.candidatesGenerated =
    (outcomes.map (·.candidatesGenerated)).sum

section

variable [WordChars] [JsonText] {p : Pipeline} {t : Trace Ans} {out out' : TargetOutcome}

private theorem Pipeline.Settled.settled_succ {n : Nat} (h : p.Settled n out t out') :
    out'.settled = out.settled + 1 ∧ out'.candidatesGenerated = out.candidatesGenerated := by
  cases h with
  | accepted t a =>
    constructor
    · simp only [TargetOutcome.settled, TargetOutcome.accept, List.length_append,
        List.length_singleton]
      omega
    · rfl
  | rejected t r =>
    constructor
    · simp only [TargetOutcome.settled, TargetOutcome.reject, List.length_append,
        List.length_singleton]
      omega
    · rfl
  | reported c ps exec mutant a t t' =>
    constructor
    · simp only [TargetOutcome.settled, TargetOutcome.reportCatch, List.length_append,
        List.length_singleton]
      omega
    · rfl

private theorem Pipeline.Chain.settled_add {ss : List p.StageRun} (h : p.Chain out ss out') :
    out'.settled = out.settled + ss.length ∧
      out'.candidatesGenerated = out.candidatesGenerated := by
  induction h with
  | nil out => exact ⟨rfl, rfl⟩
  | cons s _ ih =>
    obtain ⟨hcount, hgenerated⟩ := (Pipeline.stage_settles s.ran).settled_succ
    constructor
    · rw [ih.1, hcount, List.length_cons]
      omega
    · rw [ih.2, hgenerated]

section

variable {rt : RankedTarget} {context : ContextBundle} {promptHints : List Text} {cfg : RunConfig}

theorem TargetRun.stages_length (run : TargetRun rt context promptHints cfg t out) :
    run.stages.length = out.candidatesGenerated := by
  have hlength : run.stages.length =
      run.generated.candidates.length + run.generated.catches.length := by
    simpa using congrArg List.length run.inputs
  rw [run.chain.settled_add.2, hlength]
  rfl

private theorem TargetRun.conserved (run : TargetRun rt context promptHints cfg t out) :
    out.Conserved := by
  have hinitial : run.generated.initial.settled = 0 := rfl
  show out.settled = out.candidatesGenerated
  rw [run.chain.settled_add.1, hinitial, run.stages_length, Nat.zero_add]

end

end

private theorem assembleReport_tallies (runId repoPath base head : Text) (mode : Mode)
    (strategy : Strategy) (ranked : List RankedTarget) (outcomes : List TargetOutcome)
    (warnings : List Text) :
    Tallies (assembleReport runId repoPath base head mode strategy ranked outcomes warnings)
      outcomes where
  accepted := rfl
  accepted_sum := List.length_flatMap
  catches := rfl
  catches_sum := List.length_flatMap
  rejected := rfl
  rejected_sum := List.length_flatMap
  generated_sum := rfl

private theorem sum_settled (outcomes : List TargetOutcome) :
    (outcomes.map (·.settled)).sum = (outcomes.map (·.accepted.length)).sum +
      (outcomes.map (·.catches.length)).sum + (outcomes.map (·.rejected.length)).sum := by
  induction outcomes with
  | nil => rfl
  | cons out rest ih =>
    have hfirst : out.settled = out.accepted.length + out.catches.length + out.rejected.length :=
      rfl
    simp only [List.map_cons, List.sum_cons, ih]
    omega

private theorem Tallies.conserved {report : RunReport} {outcomes : List TargetOutcome}
    (h : Tallies report outcomes) (hout : ∀ out ∈ outcomes, out.Conserved) :
    report.summary.Conserved := by
  have hsum : (outcomes.map (·.settled)).sum = (outcomes.map (·.candidatesGenerated)).sum :=
    congrArg List.sum (List.map_congr_left hout)
  show report.summary.accepted + report.summary.catches + report.summary.rejected =
    report.summary.candidatesGenerated
  rw [h.accepted_sum, h.catches_sum, h.rejected_sum, h.generated_sum, ← hsum, sum_settled]

/-- No candidate is lost or counted twice: every outcome of a target settles what was generated, and
the summary of a report counts its lists, sums the targets and settles what they settle. -/
theorem candidates_conserved [WordChars] [JsonText] :
    (∀ rt context promptHints cfg t out,
      (processTarget rt context promptHints cfg).Returns t out → out.Conserved) ∧
    ∀ runId repoPath base head mode strategy ranked outcomes warnings,
      let report :=
        assembleReport runId repoPath base head mode strategy ranked outcomes warnings
      Tallies report outcomes ∧
        ((∀ out ∈ outcomes, out.Conserved) → report.summary.Conserved) := by
  constructor
  · intro rt context promptHints cfg t out h
    obtain ⟨run⟩ := targetRun_of_returns h
    exact run.conserved
  · intro runId repoPath base head mode strategy ranked outcomes warnings
    have htallies := assembleReport_tallies runId repoPath base head mode strategy ranked outcomes
      warnings
    exact ⟨htallies, htallies.conserved⟩

/-- The scripted intent-aware run generates one candidate and reports it. -/
theorem scriptedRun_conserves :
    letI := asciiWords
    letI := noJson
    let out := outcomeOf (scriptedRun { RunConfig.default with mode := .catch }
      (fence "path: a\n@@") failsOffBase)
    out.candidatesGenerated = 1 ∧ out.Conserved ∧
      (assembleReport "run-0" "/r" "b" "h" .catch .intentAware [sampleTarget] [out]
        []).summary.Conserved :=
  letI := asciiWords
  letI := noJson
  have hrun : (scriptedRun { RunConfig.default with mode := .catch } (fence "path: a\n@@")
      failsOffBase).1.isOk = true ∧
      (outcomeOf (scriptedRun { RunConfig.default with mode := .catch } (fence "path: a\n@@")
        failsOffBase)).candidatesGenerated = 1 := by decide +kernel
  have hconserved := candidates_conserved.1 sampleTarget sampleContext []
    { RunConfig.default with mode := .catch } _ _ (scriptedRun_returns hrun.1)
  ⟨hrun.2, hconserved, (candidates_conserved.2 "run-0" "/r" "b" "h" .catch .intentAware
    [sampleTarget] _ []).2 (by simpa using hconserved)⟩

end Jitgen
