import Jitgen.Framework.Cost
import Jitgen.Orchestrator.Doubles
import Mathlib.Algebra.Order.Group.Nat
import Mathlib.Tactic.Ring

/-!
# The cost of processing one target

Provider calls, candidate runs and runs of the existing suite are counted together, as a triple.
-/

namespace Jitgen

open Fallible

/-- Provider calls, candidate runs and runs of the existing suite. -/
abbrev Budget := ℕ × ℕ × ℕ

/-- What an operation takes from the budget. -/
def price : PipelineOp → Budget
  | .generate _ => (1, 0, 0)
  | .runCandidate _ _ => (0, 1, 0)
  | .runExisting _ => (0, 0, 1)

/-- Candidate runs of one trial. -/
def trialRuns : Mode → Nat
  | .harden => 1
  | .catch => 2

private theorem atMost_generate (req : LlmRequest) : AtMost price (1, 0, 0) (generate req) :=
  atMost_attempt

private theorem atMost_runCandidate (c : TestCandidate) (v : Variant) :
    AtMost price (0, 1, 0) (runCandidate c v) :=
  atMost_attempt

private theorem atMost_runExisting (v : Variant) : AtMost price (0, 0, 1) (runExisting v) :=
  atMost_attempt

variable [WordChars]

private theorem atMost_trial (c : TestCandidate) (mode : Mode) :
    AtMost price (0, trialRuns mode, 0) (trial c mode) := by
  cases mode with
  | harden => exact atMost_bind_pure (atMost_runCandidate c _)
  | «catch» =>
    exact atMost_bind (atMost_runCandidate c _) fun _ base _ =>
      atMost_bind_pure (atMost_runCandidate c _)

omit [WordChars] in
private theorem atMost_attemptCandidate (template : LlmRequest) (initial : TestCandidate)
    (attempt : Nat) (previous : TestCandidate) (feedback : Text) :
    AtMost price (if attempt = 0 then 0 else 1, 0, 0)
      (attemptCandidate template initial attempt previous feedback) := by
  unfold attemptCandidate
  split_ifs
  · exact atMost_pure _
  · exact atMost_bind_pure (atMost_generate _)

/-- The first attempt needs no provider call. -/
private theorem atMost_repairFrom {template : LlmRequest} {initial : TestCandidate} {mode : Mode}
    {maxAttempts left : Nat} (hle : left ≤ maxAttempts) (previous : TestCandidate)
    (last : Option ClassifiedResult) (feedback : Text) :
    AtMost price (min left (maxAttempts - 1), left * trialRuns mode, 0)
      (repairFrom template initial mode maxAttempts left previous last feedback) := by
  induction left generalizing previous last feedback with
  | zero => exact atMost_pure _
  | succ left ih =>
    have hsplit : ((if maxAttempts - (left + 1) = 0 then 0 else 1, 0, 0) : Budget) +
        ((0, trialRuns mode, 0) + (min left (maxAttempts - 1), left * trialRuns mode, 0)) ≤
        (min (left + 1) (maxAttempts - 1), (left + 1) * trialRuns mode, 0) := by
      have hruns : (left + 1) * trialRuns mode = trialRuns mode + left * trialRuns mode := by
        rw [Nat.succ_mul, Nat.add_comm]
      simp only [Prod.mk_add_mk, Prod.mk_le_mk, hruns]
      split_ifs <;> omega
    have hrest : ∀ c last' feedback', AtMost price
        ((0, trialRuns mode, 0) + (min left (maxAttempts - 1), left * trialRuns mode, 0))
        (repairFrom template initial mode maxAttempts left c last' feedback') :=
      fun c last' feedback' => (ih (by omega) c last' feedback').mono le_add_self
    rw [repairFrom]
    refine (atMost_bind (atMost_attemptCandidate _ _ _ _ _) fun _ c _ => ?_).mono hsplit
    dsimp only
    split_ifs
    · exact atMost_pure _
    · exact hrest _ _ _
    · refine atMost_bind (atMost_trial c mode) fun _ tried _ => ?_
      split_ifs
      · exact atMost_pure _
      · exact ih (by omega) _ _ _

private theorem atMost_repairLoop (initial : TestCandidate) (template : LlmRequest) (mode : Mode)
    (maxAttempts : Nat) :
    AtMost price (maxAttempts - 1, maxAttempts * trialRuns mode, 0)
      (repairLoop initial template mode maxAttempts) := by
  unfold repairLoop
  split_ifs
  · exact atMost_throw _
  · apply (atMost_repairFrom (Nat.le_refl _) _ _ _).mono
    rw [Nat.min_eq_right (Nat.sub_le _ _)]

omit [WordChars] in
private theorem atMost_observe {trial : Feedback CatchClass} {runs : Nat}
    (h : AtMost price (0, runs, 0) trial) (n : Nat) :
    AtMost price (0, n * runs, 0) (observe trial n) := by
  induction n with
  | zero => exact atMost_pure _
  | succ n ih =>
    have hsum : ((0, (n + 1) * runs, 0) : Budget) = (0, runs, 0) + (0, n * runs, 0) := by
      simp [Nat.succ_mul, Nat.add_comm]
    rw [observe, hsum]
    exact atMost_bind h fun _ c _ => atMost_bind_pure ih

omit [WordChars] in
private theorem atMost_flakeFilterSingle (c : TestCandidate) (v : Variant) (reruns : Nat) :
    AtMost price (0, (reruns + 1) * 1, 0) (flakeFilterSingle c v reruns) := by
  have htrial : AtMost price (0, 1, 0) (singleTrial c v) :=
    atMost_bind_pure (atMost_runCandidate c v)
  exact atMost_bind_pure (atMost_observe htrial _)

omit [WordChars] in
private theorem atMost_flakeFilterCatch (c : TestCandidate) (reruns : Nat) :
    AtMost price (0, (reruns + 1) * 2, 0) (flakeFilterCatch c reruns) := by
  have htrial : AtMost price (0, 2, 0) (catchTrial c) :=
    atMost_bind (atMost_runCandidate c _) fun _ _ _ => atMost_bind_pure (atMost_runCandidate c _)
  exact atMost_bind_pure (atMost_observe htrial _)

namespace Pipeline

variable [JsonText] (p : Pipeline)

omit [WordChars] [JsonText] in
private theorem atMost_flakeFilter (c : TestCandidate) :
    AtMost price (0, (p.cfg.reruns + 1) * trialRuns p.cfg.mode, 0) (p.flakeFilter c) := by
  unfold flakeFilter
  cases p.cfg.mode with
  | harden => exact atMost_flakeFilterSingle c _ _
  | «catch» => exact atMost_flakeFilterCatch c _

omit [WordChars] [JsonText] in
private theorem atMost_pairedRun (c : TestCandidate) : AtMost price (0, 2, 0) (pairedRun c) :=
  atMost_bind (atMost_runCandidate c _) fun _ _ _ => atMost_bind_pure (atMost_runCandidate c _)

private theorem atMost_reportAssessedCatch (c : TestCandidate) (exec : CatchExecution)
    (mutant : Option MutantInfo) (out : TargetOutcome) :
    AtMost price (1, 0, 0) (p.reportAssessedCatch c exec mutant out) := by
  apply atMost_bind_pure
  apply atMost_lift
  intro t a h
  unfold assess at h
  split_ifs at h
  · have ⟨x, t', ht, hrest⟩ := h
    rw [ht, hrest.1]
    exact le_of_eq (Trace.cost_singleton _)
  · rw [h.1]
    exact zero_le

private theorem atMost_classifyStable (c : TestCandidate) (path : Text) (k : CatchClass)
    (out : TargetOutcome) : AtMost price (1, 2, 0) (p.classifyStable c path k out) := by
  unfold classifyStable
  split
  · split <;> exact atMost_pure _
  · exact (atMost_bind (atMost_pairedRun c) fun _ exec _ =>
      p.atMost_reportAssessedCatch c exec none out)
  · exact atMost_pure _

omit [JsonText] in
private theorem pos_of_returns_repairLoop {initial : TestCandidate} {template : LlmRequest}
    {mode : Mode} {maxAttempts : Nat} {t : Trace Ans} {report : RepairReport}
    (h : (repairLoop initial template mode maxAttempts).Returns t report) : 1 ≤ maxAttempts := by
  by_contra hzero
  have hmax : maxAttempts = 0 := by omega
  rw [hmax] at h
  exact returns_throw h

/-- The first attempt was paid for by generation, which leaves a provider call for the judge. -/
private theorem atMost_candidate (initial : TestCandidate) (out : TargetOutcome) :
    AtMost price (p.cfg.maxAttempts, p.cfg.maxAttempts * trialRuns p.cfg.mode +
      (p.cfg.reruns + 1) * trialRuns p.cfg.mode + 2, 0) (p.candidate initial out) := by
  have hsplit : ((p.cfg.maxAttempts - 1, p.cfg.maxAttempts * trialRuns p.cfg.mode, 0) : Budget) +
      (min 1 p.cfg.maxAttempts, (p.cfg.reruns + 1) * trialRuns p.cfg.mode + 2, 0) ≤
      (p.cfg.maxAttempts, p.cfg.maxAttempts * trialRuns p.cfg.mode +
        (p.cfg.reruns + 1) * trialRuns p.cfg.mode + 2, 0) := by
    simp only [Prod.mk_add_mk, Prod.mk_le_mk]
    omega
  refine (atMost_bind (atMost_repairLoop _ _ _ _) fun _ report hreport => ?_).mono hsplit
  have hpos := pos_of_returns_repairLoop hreport
  dsimp only
  cases report.outcome with
  | exhausted => exact atMost_pure _
  | rejected => exact atMost_pure _
  | accepted =>
    have hsum : ((min 1 p.cfg.maxAttempts, (p.cfg.reruns + 1) * trialRuns p.cfg.mode + 2, 0) :
        Budget) = (0, (p.cfg.reruns + 1) * trialRuns p.cfg.mode, 0) + (1, 2, 0) := by
      simp [Nat.min_eq_left hpos]
    rw [hsum]
    refine atMost_bind (p.atMost_flakeFilter report.candidate) fun _ stable _ => ?_
    split_ifs
    · exact p.atMost_classifyStable _ _ _ _
    · exact atMost_pure _

private theorem atMost_harvested (h : HarvestedCatch) (out : TargetOutcome) :
    AtMost price (1, 2 * (p.cfg.reruns + 1) + 2, 0) (p.harvested h out) := by
  have hsum : ((1, 2 * (p.cfg.reruns + 1) + 2, 0) : Budget) =
      (0, (p.cfg.reruns + 1) * 2, 0) + ((0, 2, 0) + (1, 0, 0)) := by
    simp [Nat.mul_comm]
  unfold harvested
  dsimp only
  split_ifs
  · exact atMost_pure _
  · rw [hsum]
    refine atMost_bind (atMost_flakeFilterCatch _ _) fun _ stable _ => ?_
    split_ifs
    · exact atMost_bind (atMost_pairedRun _) fun _ exec _ =>
        p.atMost_reportAssessedCatch _ _ _ _
    · exact atMost_pure _
    · exact atMost_pure _

end Pipeline

omit [WordChars] in
private theorem atMost_generateSimple (prompt : Prompt) (context : ContextBundle)
    (target : GenTarget) (mode : Mode) (strategy : Strategy) (attempts : List Nat) :
    AtMost price (attempts.length, 0, 0)
      (generateSimple prompt context target mode strategy attempts) := by
  induction attempts with
  | nil => exact atMost_pure _
  | cons attempt rest ih =>
    have hsum : (((attempt :: rest).length, 0, 0) : Budget) = (1, 0, 0) + (rest.length, 0, 0) := by
      simp [Nat.add_comm]
    rw [hsum]
    exact atMost_bind (atMost_generate _) fun _ _ _ => atMost_bind_pure ih

omit [WordChars] in
private theorem length_generateSimple {prompt : Prompt} {context : ContextBundle}
    {target : GenTarget} {mode : Mode} {strategy : Strategy} {attempts : List Nat} {t : Trace Ans}
    {cs : List TestCandidate}
    (h : (generateSimple prompt context target mode strategy attempts).Returns t cs) :
    cs.length ≤ attempts.length := by
  induction attempts generalizing t cs with
  | nil =>
    rw [(returns_pure.mp h).2]
    exact Nat.le_refl _
  | cons attempt rest ih =>
    obtain ⟨_, _, resp, _, _, h⟩ := returns_bind.mp h
    obtain ⟨_, _, out, _, hout, h⟩ := returns_bind.mp h
    have hlen := ih hout
    rw [(returns_pure.mp h).2, List.length_cons]
    split_ifs
    · exact Nat.succ_le_succ hlen
    · omega

namespace IntentAware

omit [WordChars] in
private theorem atMost_keepValid (ms : List Mutant) :
    AtMost price (0, 0, ms.length) (keepValid ms) := by
  induction ms with
  | nil => exact atMost_pure _
  | cons m ms ih =>
    have hsum : ((0, 0, (m :: ms).length) : Budget) = (0, 0, 1) + (0, 0, ms.length) := by
      simp [Nat.add_comm]
    rw [hsum]
    exact atMost_bind (atMost_runExisting _) fun _ _ _ => atMost_bind_pure ih

omit [WordChars] in
private theorem length_keepValid {ms valid : List Mutant} {t : Trace Ans}
    (h : (keepValid ms).Returns t valid) : valid.length ≤ ms.length := by
  induction ms generalizing t valid with
  | nil =>
    rw [(returns_pure.mp h).2]
  | cons m ms ih =>
    have ⟨_, _, existing, _, _, h⟩ := returns_bind.mp h
    have ⟨_, _, rest, _, hrest, h⟩ := returns_bind.mp h
    have hlen := ih hrest
    rw [(returns_pure.mp h).2, List.length_cons]
    split_ifs
    · exact Nat.succ_le_succ hlen
    · omega

private theorem atMost_harvest (context : ContextBundle) (target : GenTarget) (m : Mutant) :
    AtMost price (1, 3, 0) (harvest context target m) := by
  have hsum : ((1, 3, 0) : Budget) = (1, 0, 0) + ((0, 1, 0) + ((0, 1, 0) + (0, 1, 0))) := rfl
  rw [hsum]
  refine atMost_bind (atMost_generate _) fun _ resp _ => ?_
  dsimp only
  split_ifs
  · exact atMost_pure _
  refine atMost_bind (atMost_runCandidate _ _) fun _ base _ => ?_
  refine atMost_bind (atMost_runCandidate _ _) fun _ onMutant _ => ?_
  split_ifs
  · exact atMost_bind_pure (atMost_runCandidate _ _)
  · exact atMost_pure _

private theorem atMost_harvestAll (context : ContextBundle) (target : GenTarget)
    (ms : List Mutant) :
    AtMost price (ms.length, 3 * ms.length, 0) (harvestAll context target ms) := by
  induction ms with
  | nil => exact atMost_pure _
  | cons m ms ih =>
    have hsum : (((m :: ms).length, 3 * (m :: ms).length, 0) : Budget) =
        (1, 3, 0) + (ms.length, 3 * ms.length, 0) := by
      simp [Nat.mul_succ, Nat.add_comm]
    rw [hsum]
    exact atMost_bind (atMost_harvest context target m) fun _ _ _ => atMost_bind_pure ih

private theorem length_harvestAll {context : ContextBundle} {target : GenTarget} {ms : List Mutant}
    {hs : List HarvestedCatch} {t : Trace Ans} (h : (harvestAll context target ms).Returns t hs) :
    hs.length ≤ ms.length := by
  induction ms generalizing t hs with
  | nil =>
    rw [(returns_pure.mp h).2]
    exact Nat.le_refl _
  | cons m ms ih =>
    have ⟨_, _, first, _, _, h⟩ := returns_bind.mp h
    have ⟨_, _, rest, _, hrest, h⟩ := returns_bind.mp h
    have hlen := ih hrest
    rw [(returns_pure.mp h).2, List.length_append, List.length_cons]
    cases first with
    | none => exact (Nat.zero_add _).le.trans (hlen.trans (Nat.le_succ _))
    | some c => exact (Nat.add_comm _ _).le.trans (Nat.succ_le_succ hlen)

/-- Mutants that are probed at most. -/
def probes (cfg : StrategyConfig) : Nat := min 16 cfg.maxMutants

private theorem length_probed (risks : List Text) (raw idPrefix : Text) (cfg : StrategyConfig) :
    ((attachRisks risks (parseMutants raw idPrefix)).take cfg.maxMutants).length ≤ probes cfg := by
  have hparsed : (parseMutants raw idPrefix).length ≤ 16 := parseMutants_length_le raw idPrefix
  rw [List.length_take, attachRisks, List.length_mapIdx, probes]
  omega

private theorem atMost_run (context : ContextBundle) (target : GenTarget) (cfg : StrategyConfig) :
    AtMost price (2 + probes cfg, 3 * probes cfg, probes cfg) (run context target cfg) := by
  have hsum : ((2 + probes cfg, 3 * probes cfg, probes cfg) : Budget) =
      (1, 0, 0) + ((1, 0, 0) + ((0, 0, probes cfg) + (probes cfg, 3 * probes cfg, 0))) := by
    simp only [Prod.mk_add_mk, Prod.mk.injEq]
    omega
  rw [hsum]
  refine atMost_bind (atMost_generate _) fun _ risksResp _ => ?_
  dsimp only
  split_ifs
  · exact atMost_pure _
  refine atMost_bind (atMost_generate _) fun _ mutantsResp _ => ?_
  split_ifs
  · exact atMost_pure _
  have hprobed := length_probed (parseRisks risksResp.raw) mutantsResp.raw context.target cfg
  refine atMost_bind ((atMost_keepValid _).mono ?_) fun _ valid hvalid => ?_
  · exact Prod.mk_le_mk.mpr ⟨Nat.le_refl _, Prod.mk_le_mk.mpr ⟨Nat.le_refl _, hprobed⟩⟩
  · have hlen := (length_keepValid hvalid).trans hprobed
    apply (atMost_harvestAll context target valid).mono
    exact Prod.mk_le_mk.mpr ⟨hlen, Prod.mk_le_mk.mpr ⟨Nat.mul_le_mul_left 3 hlen, Nat.le_refl _⟩⟩

private theorem length_run {context : ContextBundle} {target : GenTarget} {cfg : StrategyConfig}
    {t : Trace Ans} {hs : List HarvestedCatch} (h : (run context target cfg).Returns t hs) :
    hs.length ≤ probes cfg := by
  have ⟨_, _, risksResp, _, _, h⟩ := returns_bind.mp h
  dsimp only at h
  split_ifs at h
  · rw [(returns_pure.mp h).2]
    exact Nat.zero_le _
  have ⟨_, _, mutantsResp, _, _, h⟩ := returns_bind.mp h
  split_ifs at h
  · rw [(returns_pure.mp h).2]
    exact Nat.zero_le _
  have ⟨_, _, valid, _, hvalid, h⟩ := returns_bind.mp h
  exact (length_harvestAll h).trans ((length_keepValid hvalid).trans
    (length_probed (parseRisks risksResp.raw) mutantsResp.raw context.target cfg))

end IntentAware

/-- Cost of the candidates that `n` generation calls give. -/
def candidateBudget (cfg : RunConfig) (n : Nat) : Budget :=
  (n * (cfg.maxAttempts + 1), n * (cfg.maxAttempts * trialRuns cfg.mode +
    (cfg.reruns + 1) * trialRuns cfg.mode + 2), 0)

/-- Cost of inferring risks, and of probing, killing and confirming `n` mutants. -/
def mutantBudget (cfg : RunConfig) (n : Nat) : Budget :=
  (2 + 2 * n, n * (3 + 2 * (cfg.reruns + 1) + 2), n)

def targetBudget (cfg : RunConfig) : Budget :=
  if cfg.strategy.resolve cfg.mode = .intentAware then
    mutantBudget cfg (IntentAware.probes cfg.strategyCfg)
  else candidateBudget cfg cfg.strategyCfg.numCandidates

/-- What generation costs, and how much it leaves to process. -/
private theorem atMost_generateCandidates (context : ContextBundle) (target : GenTarget)
    (strategy : Strategy) (mode : Mode) (cfg : StrategyConfig) :
    AtMost price
        (if strategy.resolve mode = .intentAware then
          (2 + IntentAware.probes cfg, 3 * IntentAware.probes cfg, IntentAware.probes cfg)
        else (cfg.numCandidates, 0, 0))
        (generateCandidates context target strategy mode cfg) ∧
      ∀ t g, (generateCandidates context target strategy mode cfg).Returns t g →
        if strategy.resolve mode = .intentAware then
          g.candidates = [] ∧ g.catches.length ≤ IntentAware.probes cfg
        else g.catches = [] ∧ g.candidates.length ≤ cfg.numCandidates := by
  have hrange : (List.range cfg.numCandidates).length = cfg.numCandidates := List.length_range
  have hsimple : ∀ prompt s, AtMost price (cfg.numCandidates, 0, 0)
      (generateSimple prompt context target mode s (List.range cfg.numCandidates) >>= fun cs =>
        pure (⟨cs, []⟩ : GenerationOutcome)) := by
    intro prompt s
    have h := atMost_generateSimple prompt context target mode s (List.range cfg.numCandidates)
    rw [hrange] at h
    exact atMost_bind_pure h
  have hreturned : ∀ prompt s t g, (generateSimple prompt context target mode s
      (List.range cfg.numCandidates) >>= fun cs =>
        pure (⟨cs, []⟩ : GenerationOutcome)).Returns t g →
      g.catches = [] ∧ g.candidates.length ≤ cfg.numCandidates := by
    intro prompt s t g h
    have ⟨_, _, cs, _, hcs, h⟩ := returns_bind.mp h
    rw [(returns_pure.mp h).2]
    exact ⟨rfl, hrange ▸ length_generateSimple hcs⟩
  unfold generateCandidates
  cases hs : strategy.resolve mode with
  | auto => exact absurd hs (Strategy.resolve_ne_auto strategy mode)
  | harden => exact ⟨hsimple _ _, hreturned _ _⟩
  | dodgyDiff => exact ⟨hsimple _ _, hreturned _ _⟩
  | intentAware =>
    refine ⟨atMost_bind_pure (IntentAware.atMost_run context target cfg), fun t g h => ?_⟩
    have ⟨_, _, catches, _, hcatches, h⟩ := returns_bind.mp h
    rw [(returns_pure.mp h).2]
    exact ⟨rfl, IntentAware.length_run hcatches⟩

variable [JsonText]

private theorem atMost_processTarget (rt : RankedTarget) (context : ContextBundle)
    (promptHints : List Text) (cfg : RunConfig) :
    AtMost price (targetBudget cfg) (processTarget rt context promptHints cfg) := by
  have ⟨hcost, hreturned⟩ := atMost_generateCandidates context (genTargetOf rt) cfg.strategy
    cfg.mode cfg.strategyCfg
  let p : Pipeline := ⟨rt, context, promptHints, cfg⟩
  let candidateCost : Budget := (cfg.maxAttempts, cfg.maxAttempts * trialRuns cfg.mode +
    (cfg.reruns + 1) * trialRuns cfg.mode + 2, 0)
  let harvestedCost : Budget := (1, 2 * (cfg.reruns + 1) + 2, 0)
  have hcandidates : ∀ (cs : List TestCandidate) n out, cs.length ≤ n →
      AtMost price (n • candidateCost) (cs.foldlM (fun out c => p.candidate c out) out) :=
    fun cs n out hn => atMost_foldlM (fun b c _ => p.atMost_candidate c b) hn out
  have hcatches : ∀ (hs : List HarvestedCatch) n out, hs.length ≤ n →
      AtMost price (n • harvestedCost) (hs.foldlM (fun out h => p.harvested h out) out) :=
    fun hs n out hn => atMost_foldlM (fun b h _ => p.atMost_harvested h b) hn out
  rw [targetBudget]
  split_ifs with hs
  · rw [if_pos hs] at hcost
    have hsum : (2 + IntentAware.probes cfg.strategyCfg, 3 * IntentAware.probes cfg.strategyCfg,
        IntentAware.probes cfg.strategyCfg) + (0 • candidateCost +
          IntentAware.probes cfg.strategyCfg • harvestedCost) ≤
        mutantBudget cfg (IntentAware.probes cfg.strategyCfg) := by
      generalize IntentAware.probes cfg.strategyCfg = n
      have hruns : n * (3 + 2 * (cfg.reruns + 1) + 2) = 3 * n + n * (2 * (cfg.reruns + 1) + 2) := by
        ring
      simp only [mutantBudget, harvestedCost, zero_nsmul, zero_add, Prod.smul_mk,
        Nat.nsmul_eq_mul, Prod.mk_add_mk, Prod.mk_le_mk, hruns]
      omega
    refine (atMost_bind hcost fun t g hg => ?_).mono hsum
    have hlen := hreturned t g hg
    rw [if_pos hs] at hlen
    exact atMost_bind (hcandidates _ 0 _ (by simp [hlen.1])) fun _ out _ =>
      hcatches _ _ _ hlen.2
  · rw [if_neg hs] at hcost
    have hsum : (cfg.strategyCfg.numCandidates, 0, 0) +
        (cfg.strategyCfg.numCandidates • candidateCost + 0 • harvestedCost) ≤
        candidateBudget cfg cfg.strategyCfg.numCandidates := by
      generalize cfg.strategyCfg.numCandidates = n
      simp only [candidateBudget, candidateCost, zero_nsmul, add_zero, Prod.smul_mk,
        Nat.nsmul_eq_mul, Prod.mk_add_mk, Prod.mk_le_mk, Nat.mul_succ]
      omega
    refine (atMost_bind hcost fun t g hg => ?_).mono hsum
    have hlen := hreturned t g hg
    rw [if_neg hs] at hlen
    exact atMost_bind (hcandidates _ _ _ hlen.2) fun _ out _ =>
      hcatches _ 0 _ (by simp [hlen.1])

def isGenerate : PipelineOp → Bool
  | .generate _ => true
  | _ => false

def isRunCandidate : PipelineOp → Bool
  | .runCandidate _ _ => true
  | _ => false

def isRunExisting : PipelineOp → Bool
  | .runExisting _ => true
  | _ => false

/-- Calls of one kind in a run. -/
def callCount (kind : PipelineOp → Bool) (t : Trace Ans) : Nat := t.countP fun e => kind e.1

omit [WordChars] [JsonText] in
private theorem cost_eq (t : Trace Ans) :
    Trace.cost price t =
      (callCount isGenerate t, callCount isRunCandidate t, callCount isRunExisting t) := by
  induction t with
  | nil => rfl
  | cons e t ih =>
    have hcons : Trace.cost price (e :: t) = price e.1 + Trace.cost price t := rfl
    have ⟨o, x⟩ := e
    rw [hcons, ih]
    cases o <;> simp [price, callCount, isGenerate, isRunCandidate, isRunExisting, Nat.add_comm]

/-- Whatever provider and executor answer, one target stays within its cost budget. -/
theorem cost_budget (rt : RankedTarget) (context : ContextBundle) (promptHints : List Text)
    (cfg : RunConfig) {t : Trace Ans} {r : Except FeedbackError TargetOutcome}
    (h : (processTarget rt context promptHints cfg).Runs t r) :
    callCount isRunExisting t ≤ min 16 cfg.strategyCfg.maxMutants ∧
      (cfg.strategy.resolve cfg.mode ≠ .intentAware →
        callCount isRunCandidate t ≤ cfg.strategyCfg.numCandidates *
          (cfg.maxAttempts * trialRuns cfg.mode + (cfg.reruns + 1) * trialRuns cfg.mode + 2) ∧
        callCount isGenerate t ≤ cfg.strategyCfg.numCandidates * (cfg.maxAttempts + 1)) ∧
      (cfg.strategy.resolve cfg.mode = .intentAware →
        callCount isRunCandidate t ≤ min 16 cfg.strategyCfg.maxMutants *
          (3 + 2 * (cfg.reruns + 1) + 2) ∧
        callCount isGenerate t ≤ 2 + 2 * min 16 cfg.strategyCfg.maxMutants) := by
  have hcost := atMost_processTarget rt context promptHints cfg t r h
  rw [cost_eq, targetBudget] at hcost
  split_ifs at hcost with hs
  · have ⟨hgenerate, hcandidate, hexisting⟩ := hcost
    exact ⟨hexisting, fun hne => absurd hs hne, fun _ => ⟨hcandidate, hgenerate⟩⟩
  · have ⟨hgenerate, hcandidate, hexisting⟩ := hcost
    exact ⟨hexisting.trans (Nat.zero_le _), fun _ => ⟨hcandidate, hgenerate⟩,
      fun heq => absurd heq hs⟩

/-- A hardening run with the default configuration and a passing test. -/
def hardeningRun : Except FeedbackError TargetOutcome × Trace Ans :=
  scriptedRun .default (fence "check();") allPass

omit [WordChars] [JsonText] in
theorem cost_budget_default :
    callCount isRunCandidate hardeningRun.2 ≤ 1 * (3 * 1 + 3 * 1 + 2) ∧
      callCount isGenerate hardeningRun.2 ≤ 1 * (3 + 1) := by
  let _ := asciiWords
  let _ := noJson
  have hrun : (processTarget sampleTarget sampleContext [] .default).Runs hardeningRun.2
      hardeningRun.1 := Prog.runs_run _ _ _
  exact (cost_budget sampleTarget sampleContext [] .default hrun).2.1 (by decide)

end Jitgen
