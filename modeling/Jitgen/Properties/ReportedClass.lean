import Jitgen.Properties.Conservation

/-!
# The class of a reported catch

A catch is assessed and reported from a paired run of its own, made after the flake filter. The
class of the report is not read off that run, so the two agree only while the executor does not
change its mind.
-/

namespace Jitgen

open Fallible

/-- The candidate runs of a trace that had a result, in order. -/
def candidateRuns (t : Trace Ans) : List (TestCandidate × Variant × ExecutionResult) :=
  t.filterMap fun e =>
    match e with
    | ⟨.runCandidate c v, .ok r⟩ => some (c, v, r)
    | _ => none

/-- The last two candidate runs, if they are one candidate on the base and then on the head. -/
def lastPair (t : Trace Ans) : Option (TestCandidate × CatchExecution) :=
  match (candidateRuns t).reverse with
  | (c, .head, head) :: (c', .base, base) :: _ => if c = c' then some (c, ⟨base, head⟩) else none
  | _ => none

private theorem candidateRuns_append (t t' : Trace Ans) :
    candidateRuns (t ++ t') = candidateRuns t ++ candidateRuns t' :=
  List.filterMap_append

private theorem lastPair_append {t : Trace Ans} {x : TestCandidate × CatchExecution}
    (t₀ : Trace Ans) (h : lastPair t = some x) : lastPair (t₀ ++ t) = some x := by
  unfold lastPair at h ⊢
  have happ : (candidateRuns (t₀ ++ t)).reverse =
      (candidateRuns t).reverse ++ (candidateRuns t₀).reverse := by
    rw [candidateRuns_append, List.reverse_append]
  rw [happ]
  split at h
  · rename_i c head c' base rest heq
    rw [heq]
    exact h
  · cases h

private theorem lastPair_of_replies {t t' : Trace Ans} (h : ∀ e ∈ t', ∃ req, e.1 = .generate req) :
    lastPair (t ++ t') = lastPair t := by
  have hnone : candidateRuns t' = [] := by
    apply List.filterMap_eq_nil_iff.mpr
    intro e he
    obtain ⟨req, hreq⟩ := h e he
    obtain ⟨o, x⟩ := e
    cases hreq
    rfl
  unfold lastPair
  rw [candidateRuns_append, hnone, List.append_nil]

private theorem lastPair_pairedRuns (t : Trace Ans) (c : TestCandidate)
    (ps : List (ExecutionResult × ExecutionResult)) (exec : CatchExecution) :
    lastPair (t ++ pairedRuns c (ps ++ [(exec.base, exec.head)])) = some (c, exec) := by
  have hpairs : pairedRuns c (ps ++ [(exec.base, exec.head)]) =
      pairedRuns c ps ++ [ranCandidate c .base exec.base, ranCandidate c .head exec.head] := by
    simp [pairedRuns]
  rw [hpairs, ← List.append_assoc]
  apply lastPair_append
  exact if_pos rfl

section

variable [WordChars]

/-- The report is about the candidate of the last pair of the trace, and that pair is of the
report's class. -/
def MatchesEvidence (t : Trace Ans) (r : CatchReport) : Prop :=
  ∃ c exec, lastPair t = some (c, exec) ∧ r.path = (redact c.relPath).text ∧
    r.source = (redact c.source).text ∧ CatchClass.fromCatch exec = r.class

/-- A candidate that was a weak catch `n` times in a row is one the next time too, whenever the
executor runs it again right away. -/
def SteadyAfter (n : Nat) (t : Trace Ans) : Prop :=
  ∀ c ps exec, ps.length = n → (∀ q ∈ ps, q.1.outcome = .passed ∧ q.2.outcome = .failed) →
    pairedRuns c (ps ++ [(exec.base, exec.head)]) <:+: t → CatchClass.fromCatch exec = .weakCatch

variable [JsonText]

/-- In each stage the executor is steady after as many weak catches as the stage asks for. -/
def TargetRun.Steady {rt : RankedTarget} {context : ContextBundle} {promptHints : List Text}
    {cfg : RunConfig} {t : Trace Ans} {out : TargetOutcome}
    (run : TargetRun rt context promptHints cfg t out) : Prop :=
  ∀ s ∈ run.stages,
    SteadyAfter (Pipeline.observations ⟨rt, context, promptHints, cfg⟩ s.input) s.events

/-- Every report of the run matches the last pair that the stage which made it ran. -/
def TargetRun.ReportsMatch {rt : RankedTarget} {context : ContextBundle} {promptHints : List Text}
    {cfg : RunConfig} {t : Trace Ans} {out : TargetOutcome}
    (run : TargetRun rt context promptHints cfg t out) : Prop :=
  ∀ s ∈ run.stages, ∀ r, s.after.catches = s.before.catches ++ [r] →
    MatchesEvidence s.events r

private theorem assess_replies {exec : CatchExecution} {stable : Bool}
    {context : Option ContextBundle} {judge : Bool} {cfg : AssessConfig} {t : Trace Ans}
    {a : WeakCatchAssessment} (h : (assess exec stable context judge cfg).Runs t a) :
    ∀ e ∈ t, ∃ req, e.1 = .generate req := by
  unfold assess at h
  split_ifs at h
  · obtain ⟨x, t', rfl, rfl, -⟩ := h
    intro e he
    rw [List.mem_singleton.mp he]
    exact ⟨_, rfl⟩
  · obtain ⟨rfl, -⟩ := h
    simp

private theorem Pipeline.Settled.matches_of_steady {p : Pipeline} {n : Nat} {t : Trace Ans}
    {out out' : TargetOutcome} {r : CatchReport} (h : p.Settled n out t out')
    (hr : out'.catches = out.catches ++ [r]) (hsteady : SteadyAfter n t) : MatchesEvidence t r := by
  cases h with
  | accepted t a => simp at hr
  | rejected t r => simp at hr
  | reported c ps exec mutant a t t' trials observed assessed =>
    rw [TargetOutcome.reportCatch_catches, List.append_cancel_left_eq, List.cons.injEq] at hr
    obtain ⟨rfl, -⟩ := hr
    have hlast : lastPair (t ++ pairedRuns c (ps ++ [(exec.base, exec.head)]) ++ t') =
        some (c, exec) := by
      rw [lastPair_of_replies (assess_replies assessed), lastPair_pairedRuns]
    exact ⟨c, exec, hlast, rfl, rfl, hsteady c ps exec trials observed ⟨t, t', rfl⟩⟩

/-- While the executor is steady, every catch report of a target is about a pair that was a weak
catch when it was last observed. -/
theorem processTarget_reports_match (rt : RankedTarget) (context : ContextBundle)
    (promptHints : List Text) (cfg : RunConfig) (t : Trace Ans) (out : TargetOutcome)
    (h : (processTarget rt context promptHints cfg).Returns t out) :
    Nonempty (TargetRun rt context promptHints cfg t out) ∧
      ∀ run : TargetRun rt context promptHints cfg t out, run.Steady → run.ReportsMatch := by
  constructor
  · exact targetRun_of_returns h
  · intro run hsteady s hs r hr
    exact (Pipeline.stage_settles s.ran).matches_of_steady hr (hsteady s hs)

end

def catchByMutants : RunConfig := { RunConfig.default with mode := .catch }

private theorem scripted_steady [WordChars] [JsonText] {rt : RankedTarget} {context : ContextBundle}
    {promptHints : List Text} {cfg : RunConfig} {reply : Text} {out : TargetOutcome}
    (run : TargetRun rt context promptHints cfg ((processTarget rt context promptHints cfg).run.run
      (scripted reply failsOffBase) []).2 out) : run.Steady := by
  intro s hs c ps exec _ _ hblock
  have hsub : s.events ⊆
      ((processTarget rt context promptHints cfg).run.run (scripted reply failsOffBase) []).2 := by
    intro e he
    rw [run.trace_eq]
    exact List.mem_append_right _ (List.mem_flatMap.mpr ⟨s, hs, he⟩)
  have hbase : ranCandidate c .base exec.base ∈ s.events :=
    hblock.subset (by simp [pairedRuns])
  have hhead : ranCandidate c .head exec.head ∈ s.events :=
    hblock.subset (by simp [pairedRuns])
  obtain ⟨_, hb⟩ := Prog.answer_of_mem_run (hsub hbase)
  obtain ⟨_, hh⟩ := Prog.answer_of_mem_run (hsub hhead)
  have hb : exec.base = result .passed := Except.ok.inj hb
  have hh : exec.head = resultWithStderr .failed "assertion failed" := Except.ok.inj hh
  rw [CatchClass.fromCatch_eq_weakCatch, hb, hh]
  exact ⟨rfl, rfl⟩

/-- The scripted run reports one catch, which matches its evidence. -/
theorem scriptedRun_reports_match :
    letI := asciiWords
    letI := noJson
    let r := scriptedRun catchByMutants (fence "path: a\n@@") failsOffBase
    (outcomeOf r).catches.length = 1 ∧
      ∃ run : TargetRun sampleTarget sampleContext [] catchByMutants r.2 (outcomeOf r),
        run.ReportsMatch :=
  letI := asciiWords
  letI := noJson
  have hrun : (scriptedRun catchByMutants (fence "path: a\n@@") failsOffBase).1.isOk = true ∧
      (outcomeOf (scriptedRun catchByMutants (fence "path: a\n@@")
        failsOffBase)).catches.length = 1 := by decide +kernel
  have hreports := processTarget_reports_match sampleTarget sampleContext [] catchByMutants _ _
    (scriptedRun_returns hrun.1)
  ⟨hrun.2, hreports.1.elim fun run => ⟨run, hreports.2 run (scripted_steady run)⟩⟩

/-- The changed revision fails on the first four runs of a candidate and passes from then on. -/
def wavering (reply : Text) : Env Ans := fun h o =>
  match o with
  | .runCandidate c .head =>
    if ((candidateRuns h).filter fun run => decide (run.2.1 = .head)).length < 4 then
      scripted reply failsOffBase h (.runCandidate c .head)
    else .ok (result .passed)
  | o => scripted reply failsOffBase h o

/-- Harvested and three times confirmed, the catch is reported as a weak one from a run that passes
on both revisions. -/
theorem wavering_executor_breaks_class :
    letI := asciiWords
    letI := noJson
    let r := (processTarget sampleTarget sampleContext [] catchByMutants).run.run
      (wavering (fence "path: a\n@@")) []
    (processTarget sampleTarget sampleContext [] catchByMutants).Returns r.2 (outcomeOf r) ∧
      ∀ run : TargetRun sampleTarget sampleContext [] catchByMutants r.2 (outcomeOf r),
        ¬ run.ReportsMatch := by
  let _ := asciiWords
  let _ := noJson
  intro r
  have hrun : r.1.isOk = true ∧ (outcomeOf r).candidatesGenerated = 1 ∧
      (outcomeOf r).catches.map (·.class) = [.weakCatch] ∧
      (lastPair r.2).map (fun x => CatchClass.fromCatch x.2) = some .noCatch := by
    decide +kernel
  obtain ⟨hok, hgenerated, hclass, hlast⟩ := hrun
  refine ⟨returns_of_run hok, fun run hmatch => ?_⟩
  obtain ⟨s, hs⟩ := List.length_eq_one_iff.mp (run.stages_length.trans hgenerated)
  have hmem : s ∈ run.stages := by
    rw [hs]
    exact List.mem_singleton_self s
  obtain ⟨hbefore, hafter⟩ := Pipeline.chain_singleton (hs ▸ run.chain)
  obtain ⟨report, hreport, hweak⟩ := List.map_eq_singleton_iff.mp hclass
  have hcatches : s.after.catches = s.before.catches ++ [report] := by
    rw [hbefore, hafter, hreport]
    rfl
  obtain ⟨c, exec, hpair, -, -, hevidence⟩ := hmatch s hmem report hcatches
  have htrace : run.generation ++ s.events = r.2 := by
    have h := run.trace_eq.symm
    rwa [hs, List.flatMap_singleton] at h
  rw [← htrace, lastPair_append run.generation hpair, Option.map_some, hevidence, hweak] at hlast
  cases hlast

end Jitgen
