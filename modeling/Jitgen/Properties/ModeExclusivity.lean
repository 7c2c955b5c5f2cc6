import Jitgen.Orchestrator.Config
import Jitgen.Orchestrator.Gate
import Jitgen.Orchestrator.Report
import Jitgen.Properties.HardenFidelity

/-!
# Which modes exclude which results

Catch mode never accepts a test. Harden mode reports no catch only while the resolved strategy is
not the intent-aware one: harvested catches are reported without consulting the mode.
-/

namespace Jitgen

open Fallible Text

section

variable [WordChars] [JsonText]

private theorem Pipeline.candidate_accepted_of_catch {p : Pipeline} {initial : TestCandidate}
    {out out' : TargetOutcome} {t : Trace Ans} (hmode : p.cfg.mode = .catch)
    (hret : (p.candidate initial out).Returns t out') : out'.accepted = out.accepted := by
  rcases returns_candidate hret with ⟨r, hout⟩ | ⟨_, _, _, _, _, _, _, _, _, h⟩
  · rw [hout]
    rfl
  · rcases classifyStable_accepted h with heq | ⟨_, -, hharden, -⟩
    · exact heq
    · rw [hmode] at hharden
      cases hharden

private theorem processTarget_accepted_of_catch {rt : RankedTarget} {context : ContextBundle}
    {promptHints : List Text} {cfg : RunConfig} (hmode : cfg.mode = .catch) {t : Trace Ans}
    {out : TargetOutcome} (h : (processTarget rt context promptHints cfg).Returns t out) :
    out.accepted = [] := by
  refine processTarget_induction (P := fun _ out => out.accepted = []) ?_ ?_ ?_ h
  · exact fun _ _ hnil _ => hnil
  · intro _ _ out out' c hP hr
    rw [Pipeline.candidate_accepted_of_catch hmode hr, hP]
  · intro _ _ out out' hc _ hP hr
    rw [Pipeline.harvested_accepted hr, hP]

private theorem Pipeline.candidate_catches_of_harden {p : Pipeline} {initial : TestCandidate}
    {out out' : TargetOutcome} {t : Trace Ans} (hmode : p.cfg.mode = .harden)
    (hret : (p.candidate initial out).Returns t out') : out'.catches = out.catches := by
  rcases returns_candidate hret with ⟨r, hout⟩ | ⟨_, _, _, _, _, _, _, _, _, h⟩
  · rw [hout]
    rfl
  rcases returns_classifyStable h with ⟨r, hout⟩ | ⟨a, hout, -⟩ | ⟨hcatch, -, -⟩
  · rw [hout]
    rfl
  · rw [hout]
    rfl
  · rw [hmode] at hcatch
    cases hcatch

omit [JsonText] in
private theorem intentAware_without_mutants {context : ContextBundle} {target : GenTarget}
    {cfg : StrategyConfig} (hcfg : cfg.maxMutants = 0) {t : Trace Ans} {hs : List HarvestedCatch}
    (h : (IntentAware.run context target cfg).Returns t hs) : hs = [] := by
  obtain ⟨_, _, _, -, -, h⟩ := returns_bind.mp h
  dsimp only at h
  split_ifs at h
  · exact (returns_pure.mp h).2
  · obtain ⟨_, _, _, -, -, h⟩ := returns_bind.mp h
    split_ifs at h
    · exact (returns_pure.mp h).2
    · obtain ⟨_, _, valid, -, hvalid, h⟩ := returns_bind.mp h
      rw [hcfg, List.take_zero] at hvalid
      rw [(returns_pure.mp hvalid).2] at h
      exact (returns_pure.mp h).2

omit [JsonText] in
/-- Only the intent-aware strategy with a positive mutant budget harvests catches. -/
private theorem generateCandidates_catches {context : ContextBundle} {target : GenTarget}
    {strategy : Strategy} {mode : Mode} {cfg : StrategyConfig}
    (hcfg : ¬ (strategy.resolve mode = .intentAware ∧ 0 < cfg.maxMutants)) {t : Trace Ans}
    {g : GenerationOutcome}
    (h : (generateCandidates context target strategy mode cfg).Returns t g) : g.catches = [] := by
  unfold generateCandidates at h
  split at h
  · obtain ⟨_, _, _, -, -, h⟩ := returns_bind.mp h
    rw [(returns_pure.mp h).2]
  · obtain ⟨_, _, _, -, -, h⟩ := returns_bind.mp h
    rw [(returns_pure.mp h).2]
  · rename_i hharden hdodgy
    obtain ⟨_, _, hs, -, hrun, h⟩ := returns_bind.mp h
    rw [(returns_pure.mp h).2]
    have hintent : strategy.resolve mode = .intentAware := by
      cases hres : strategy.resolve mode with
      | auto => exact absurd hres (strategy.resolve_ne_auto mode)
      | harden => exact absurd hres hharden
      | dodgyDiff => exact absurd hres hdodgy
      | intentAware => rfl
    have hzero : cfg.maxMutants = 0 := by simpa [hintent] using hcfg
    exact intentAware_without_mutants hzero hrun

private theorem processTarget_catches_of_harden {rt : RankedTarget} {context : ContextBundle}
    {promptHints : List Text} {cfg : RunConfig} (hmode : cfg.mode = .harden)
    (hcfg : ¬ (cfg.strategy.resolve cfg.mode = .intentAware ∧ 0 < cfg.strategyCfg.maxMutants))
    {t : Trace Ans} {out : TargetOutcome}
    (h : (processTarget rt context promptHints cfg).Returns t out) : out.catches = [] := by
  refine processTarget_induction (P := fun _ out => out.catches = []) ?_ ?_ ?_ h
  · exact fun _ _ _ hnil => hnil
  · intro _ _ out out' c hP hr
    rw [Pipeline.candidate_catches_of_harden hmode hr, hP]
  · rintro _ _ out out' hc ⟨t, g, hg, hmem⟩ hP hr
    rw [generateCandidates_catches hcfg hg] at hmem
    cases hmem

/-- The report of a run whose outcomes all came from processing its ranked targets. -/
def Assembled (cfg : RunConfig) (report : RunReport) : Prop :=
  ∃ runId repoPath base head ranked outcomes warnings,
    (∀ o ∈ outcomes, ∃ rt ∈ ranked, ∃ context promptHints t,
      (processTarget rt context promptHints cfg).Returns t o) ∧
    report = assembleReport runId repoPath base head cfg.mode
      (cfg.strategy.resolve cfg.mode) ranked outcomes warnings

/-- Harden runs report no catch and never trip the gate; catch runs accept no test, render no patch
and write nothing. -/
structure ModeExclusive (cfg : RunConfig) : Prop where
  no_catches : cfg.mode = .harden → ∀ rt context promptHints t out,
    (processTarget rt context promptHints cfg).Returns t out → out.catches = []
  gate_silent : cfg.mode = .harden → ∀ report, Assembled cfg report →
    ∀ threshold baseline warnOnly failOnCatch,
      (gateExitCode report threshold baseline warnOnly failOnCatch).isFailure = false
  no_accepted : cfg.mode = .catch → ∀ rt context promptHints t out,
    (processTarget rt context promptHints cfg).Returns t out → out.accepted = []
  nothing_landed : cfg.mode = .catch → ∀ report, Assembled cfg report →
    report.accepted = [] ∧ renderPatch report = catchModeNotice ∧
      ∀ t r, (applyToRepo report).Runs t r → t = []

private theorem assembled_catches {cfg : RunConfig} {report : RunReport} (h : Assembled cfg report)
    (hnone : ∀ rt context promptHints t out,
      (processTarget rt context promptHints cfg).Returns t out → out.catches = []) :
    report.catches = [] := by
  obtain ⟨_, _, _, _, ranked, outcomes, _, hout, rfl⟩ := h
  simp only [assembleReport, List.flatMap_eq_nil_iff]
  intro o ho
  obtain ⟨rt, -, context, promptHints, t, hr⟩ := hout o ho
  exact hnone _ _ _ _ _ hr

private theorem assembled_accepted {cfg : RunConfig} {report : RunReport} (h : Assembled cfg report)
    (hnone : ∀ rt context promptHints t out,
      (processTarget rt context promptHints cfg).Returns t out → out.accepted = []) :
    report.accepted = [] ∧ report.mode = cfg.mode := by
  obtain ⟨_, _, _, _, ranked, outcomes, _, hout, rfl⟩ := h
  refine ⟨?_, rfl⟩
  simp only [assembleReport, List.flatMap_eq_nil_iff]
  intro o ho
  obtain ⟨rt, -, context, promptHints, t, hr⟩ := hout o ho
  exact hnone _ _ _ _ _ hr

omit [WordChars] [JsonText] in
private theorem gate_silent_of_no_catches {report : RunReport} (h : report.catches = [])
    (threshold : Binary64) (baseline : Baseline) (warnOnly failOnCatch : Bool) :
    (gateExitCode report threshold baseline warnOnly failOnCatch).isFailure = false := by
  rw [← Bool.not_eq_true, gateExitCode_isFailure_iff, h]
  simp

/-- A reply that reads as one risk, as one mutant and as a harmless test. -/
def mutantReply : Text := fence "path: a\n@@"

omit [JsonText] in
private theorem parseRisks_mutantReply : (parseRisks mutantReply).isEmpty = false := by
  have hblocks : fencedBlocks mutantReply = [("path: a\n@@" : Text)] := by decide
  have hlines : (((lines "path: a\n@@").map trim).filter (!·.isEmpty)).take maxRisks ≠ [] := by
    decide
  simpa [parseRisks, hblocks] using hlines

/-- The one mutant of the reply. -/
def replyMutant (idPrefix : Text) : Mutant where
  id := idPrefix ++ "-m" ++ ofNat 0
  riskDescription := (redact (("mutant " : Text) ++ ofNat 0)).text
  path := "a"
  diff := "@@"
  status := .proposed

omit [JsonText] in
private theorem parseMutants_mutantReply (idPrefix : Text) :
    parseMutants mutantReply idPrefix = [replyMutant idPrefix] := by
  have hblocks : ((fencedBlocks mutantReply).take maxMutants).filterMap parseMutantBlock =
      [(("a" : Text), ("@@" : Text))] := by decide
  simp [parseMutants, hblocks, replyMutant]

/-- The killing test of the reply. -/
def replyCandidate (target : TargetId) (relPath : Text) : TestCandidate :=
  parseCandidate mutantReply target relPath 0

/-- A killing test that passes on the base and fails elsewhere is harvested. -/
def replyCatch (context : ContextBundle) (target : GenTarget) (m : Mutant) : HarvestedCatch where
  candidate := replyCandidate context.target target.relPath
  mutant := m
  execution := ⟨failsOffBase .base, failsOffBase .head⟩
  «class» := .weakCatch

omit [WordChars] [JsonText] in
private theorem mayReturn_runCandidate (c : TestCandidate) (v : Variant) (r : ExecutionResult) :
    MayReturn (runCandidate c v) r := ⟨_, returns_runCandidate.mpr rfl⟩

omit [WordChars] [JsonText] in
private theorem mayReturn_generate (req : LlmRequest) (resp : LlmResponse) :
    MayReturn (generate req) resp := ⟨_, returns_generate.mpr rfl⟩

omit [JsonText] in
private theorem mayReturn_harvest (context : ContextBundle) (target : GenTarget) (m : Mutant) :
    MayReturn (IntentAware.harvest context target m) (some (replyCatch context target m)) := by
  have hok : ¬ (validateCandidate (extractCode mutantReply)).ok = false := by decide
  refine mayReturn_bind (mayReturn_generate _ ⟨mutantReply⟩) (mayReturn_ite_neg hok ?_)
  refine mayReturn_bind (mayReturn_runCandidate _ _ (failsOffBase .base)) ?_
  refine mayReturn_bind (mayReturn_runCandidate _ _ (failsOffBase .head)) ?_
  refine mayReturn_ite_pos (by decide) ?_
  exact mayReturn_bind (mayReturn_runCandidate _ _ (failsOffBase .head)) (mayReturn_pure _)

omit [JsonText] in
private theorem mayReturn_intentAware (context : ContextBundle) (target : GenTarget)
    {cfg : StrategyConfig} (hcfg : 0 < cfg.maxMutants) :
    ∃ h, h.class = .weakCatch ∧ MayReturn (IntentAware.run context target cfg) [h] := by
  obtain ⟨m, hm⟩ : ∃ m, (IntentAware.attachRisks (parseRisks mutantReply)
      (parseMutants mutantReply context.target)).take cfg.maxMutants = [m] := by
    rw [← List.length_eq_one_iff, parseMutants_mutantReply]
    simp only [IntentAware.attachRisks, List.length_take, List.length_mapIdx, List.length_singleton]
    omega
  refine ⟨replyCatch context target { m with status := .valid }, rfl, ?_⟩
  refine mayReturn_bind (mayReturn_generate _ ⟨mutantReply⟩) ?_
  refine mayReturn_ite_neg (by simp [parseRisks_mutantReply]) ?_
  refine mayReturn_bind (mayReturn_generate _ ⟨mutantReply⟩) ?_
  refine mayReturn_ite_neg (by simp [parseMutants_mutantReply]) ?_
  refine mayReturn_bind (a := [{ m with status := .valid }]) ?_ ?_
  · dsimp only
    rw [hm]
    refine mayReturn_bind ⟨_, (returns_runExisting (r := result .passed)).mpr rfl⟩ ?_
    exact mayReturn_bind (mayReturn_pure _) (mayReturn_pure _)
  · exact mayReturn_bind (mayReturn_harvest _ _ _)
      (mayReturn_bind (mayReturn_pure _) (mayReturn_pure _))

omit [WordChars] [JsonText] in
private theorem mayReturn_observe (c : TestCandidate) (n : Nat) :
    MayReturn (observe (catchTrial c) n) (List.replicate n .weakCatch) := by
  induction n with
  | zero => exact mayReturn_pure _
  | succ n ih =>
    refine mayReturn_bind (a := .weakCatch) ?_ (mayReturn_bind ih (mayReturn_pure _))
    exact mayReturn_bind (mayReturn_runCandidate _ _ (failsOffBase .base))
      (mayReturn_bind (mayReturn_runCandidate _ _ (failsOffBase .head)) (mayReturn_pure _))

private theorem exists_runs_assess (exec : CatchExecution) (stable : Bool)
    (context : Option ContextBundle) (judge : Bool) (cfg : AssessConfig) :
    ∃ t a, (assess exec stable context judge cfg).Runs t a := by
  unfold assess
  split_ifs
  · let reply : Except GenerationError LlmResponse := .error (.provider [])
    exact ⟨[⟨.generate (judgeRequest (buildEvidence exec context)), reply⟩], _, reply, [], rfl,
      rfl, rfl⟩
  · exact ⟨[], _, rfl, rfl⟩

private theorem mayReturn_harvested (p : Pipeline) {h : HarvestedCatch}
    (hclass : h.class = .weakCatch) (out : TargetOutcome) :
    ∃ r, MayReturn (p.harvested h out) (out.reportCatch r) := by
  obtain ⟨t, a, ha⟩ := exists_runs_assess ⟨failsOffBase .base, failsOffBase .head⟩ true
    (some p.context) p.cfg.realLlm p.cfg.assessCfg
  refine ⟨p.assessedReport h.candidate ⟨failsOffBase .base, failsOffBase .head⟩
    (some (Pipeline.mutantInfo h.mutant)) a, ?_⟩
  unfold Pipeline.harvested
  dsimp only
  refine mayReturn_ite_neg (by simp [hclass]) ?_
  refine mayReturn_bind (a := flakeReport (List.replicate (p.cfg.reruns + 1) .weakCatch))
    (mayReturn_bind (mayReturn_observe _ _) (mayReturn_pure _)) ?_
  refine mayReturn_ite_pos (by simp [flakeReport, FlakeReport.class, List.replicate_succ]) ?_
  refine mayReturn_bind (a := ⟨failsOffBase .base, failsOffBase .head⟩)
    (mayReturn_bind (mayReturn_runCandidate _ _ _)
      (mayReturn_bind (mayReturn_runCandidate _ _ _) (mayReturn_pure _))) ?_
  exact mayReturn_bind ⟨t, returns_lift.mpr ha⟩ (mayReturn_pure _)

private theorem processTarget_may_report (rt : RankedTarget) (context : ContextBundle)
    (promptHints : List Text) {cfg : RunConfig}
    (hstrategy : cfg.strategy.resolve cfg.mode = .intentAware)
    (hmutants : 0 < cfg.strategyCfg.maxMutants) :
    ∃ out, out.catches ≠ [] ∧ MayReturn (processTarget rt context promptHints cfg) out := by
  obtain ⟨h, hclass, hrun⟩ := mayReturn_intentAware context (genTargetOf rt) hmutants
  let out : TargetOutcome := { TargetOutcome.default with candidatesGenerated := 1 }
  obtain ⟨r, hr⟩ := mayReturn_harvested ⟨rt, context, promptHints, cfg⟩ hclass out
  have hgen : MayReturn (generateCandidates context (genTargetOf rt) cfg.strategy cfg.mode
      cfg.strategyCfg) ⟨[], [h]⟩ := by
    unfold generateCandidates
    rw [hstrategy]
    exact mayReturn_bind hrun (mayReturn_pure _)
  refine ⟨out.reportCatch r, by simp, mayReturn_bind hgen (mayReturn_bind (mayReturn_pure _) ?_)⟩
  rw [List.foldlM_cons]
  exact mayReturn_bind hr (mayReturn_pure _)

/-- Mode exclusivity holds except for an intent-aware harden run with a mutant budget. -/
theorem modeExclusive_iff (cfg : RunConfig) :
    ModeExclusive cfg ↔ ¬ (cfg.mode = .harden ∧
      cfg.strategy.resolve cfg.mode = .intentAware ∧ 0 < cfg.strategyCfg.maxMutants) := by
  constructor
  · rintro hex ⟨hmode, hstrategy, hmutants⟩
    obtain ⟨out, hne, t, hr⟩ :=
      processTarget_may_report sampleTarget sampleContext [] hstrategy hmutants
    exact hne (hex.no_catches hmode _ _ _ _ _ hr)
  · intro hcfg
    have hnone : cfg.mode = .harden → ∀ rt context promptHints t out,
        (processTarget rt context promptHints cfg).Returns t out → out.catches = [] :=
      fun hmode _ _ _ _ _ hr =>
        processTarget_catches_of_harden hmode (fun h => hcfg ⟨hmode, h⟩) hr
    refine ⟨hnone, ?_, ?_, ?_⟩
    · intro hmode report hrep
      exact gate_silent_of_no_catches (assembled_catches hrep (hnone hmode))
    · intro hmode rt context promptHints t out hr
      exact processTarget_accepted_of_catch hmode hr
    · intro hmode report hrep
      obtain ⟨hnil, hrepMode⟩ := assembled_accepted hrep
        fun _ _ _ _ _ hr => processTarget_accepted_of_catch hmode hr
      rw [hmode] at hrepMode
      refine ⟨hnil, by simp [renderPatch, hrepMode], fun t r hr => ?_⟩
      rw [applyToRepo, if_pos hrepMode] at hr
      exact hr.1

end

/-- Nearest value to `9/10`. -/
def defaultFailThreshold : Binary64 := .ofBits 0x3FECCCCCCCCCCCCD

/-- The flags `--mode harden --strategy intent-aware`. -/
def intentAwareHarden : TrustedFlags :=
  { TrustedFlags.none with mode := some .harden, strategy := some .intentAware }

/-- Trusted configuration admits the pair, and a scripted run of the sample target then reports a
strong catch that trips the default gate. -/
theorem intentAware_harden_trips_gate :
    ∃ trusted, resolveTrusted .default (fun _ => none) intentAwareHarden = .ok trusted ∧
      trusted.mode = .harden ∧
      let run := scriptedRun (runConfigFrom trusted) mutantReply failsOffBase
      run.1.isOk = true ∧ (outcomeOf run).catches ≠ [] ∧
        (gateExitCode (assembleReport "run" "/repo" "base" "head" trusted.mode
          (trusted.strategy.resolve trusted.mode) [sampleTarget] [outcomeOf run] [])
          defaultFailThreshold .empty false true).isFailure = true := by
  refine ⟨{ TrustedConfig.default with mode := .harden, strategy := .intentAware }, rfl, rfl, ?_⟩
  dsimp only
  decide +kernel

end Jitgen
