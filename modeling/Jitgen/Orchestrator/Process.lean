import Jitgen.Feedback.Assess
import Jitgen.Feedback.Flake
import Jitgen.Feedback.Repair
import Jitgen.Feedback.Strategy
import Jitgen.Materialize.Placement
import Jitgen.Report.Patch

/-!
# Per-target pipeline

Generate, repair, filter for flakiness, classify, then accept, report or reject.
-/

namespace Jitgen

open Text

/-- Tunables of a run. -/
structure RunConfig where
  mode : Mode
  strategy : Strategy
  strategyCfg : StrategyConfig
  maxAttempts : Nat
  reruns : Nat
  assessCfg : AssessConfig
  realLlm : Bool
  surfaceEvidence : Bool
  deriving DecidableEq

def RunConfig.default : RunConfig where
  mode := .harden
  strategy := .auto
  strategyCfg := .default
  maxAttempts := 3
  reruns := 2
  assessCfg := .default
  realLlm := false
  surfaceEvidence := false

def maxEvidenceOutput : Nat := 4096

/-- How to reproduce a test by hand. -/
def reproduction (language relPath : Text) : Text :=
  ("Apply the test file `" : Text) ++ relPath ++ "` into the repository and run the " ++ language ++
    " test suite (jitgen ran it in a no-network sandbox against the head revision)."

/-- A path that the patch exporter would leave unchanged. -/
def pathIsLandable (p : Text) : Bool :=
  stripControls p == p && !p.contains '\n' && !p.contains '\t' && !p.startsWith "/"

variable [WordChars]

def reportPath (relPath : Text) : Text := (redact relPath).text

def reject (rt : RankedTarget) (path reason : Text) (c : Option CatchClass) :
    RejectedCandidate where
  target := rt.target.id
  path := reportPath path
  reason := (redact reason).text
  «class» := c

/-- The landable test of a candidate, or why it is refused. -/
def acceptLandable (rt : RankedTarget) (candidate : TestCandidate) (language : Text) :
    Except Text AcceptedTest :=
  if isBlank candidate.source then
    .error "generated test source is empty; refusing to land it"
  else if (redact candidate.source).redacted then
    .error "generated test source contains a secret-shaped token; refusing to land it"
  else if (redact candidate.relPath).redacted then
    .error "generated test path contains a secret-shaped token; refusing to land it"
  else if stripControls candidate.source ≠ candidate.source then
    .error "generated test source contains control characters; refusing to land it"
  else if pathIsLandable candidate.relPath = false then
    .error "generated test path contains control characters; refusing to land it"
  else .ok
    { target := rt.target.id
      symbol := rt.target.symbol.map fun s => (redact s).text
      language := language
      path := candidate.relPath
      source := candidate.source
      «class» := .hardenPass
      reproduction := (redact (reproduction language candidate.relPath)).text }

def evidenceOutput (r : ExecutionResult) : Text :=
  let combined := match isBlank r.stdout, isBlank r.stderr with
    | false, false => r.stdout ++ ['\n'] ++ r.stderr
    | true, false => r.stderr
    | _, true => r.stdout
  sanitize (redact combined).text maxEvidenceOutput

def catchEvidence (exec : CatchExecution) : CatchEvidence where
  baseExitCode := exec.base.exitCode
  headExitCode := exec.head.exitCode
  baseOutput := evidenceOutput exec.base
  headOutput := evidenceOutput exec.head

/-- The request that repairs start from. -/
def buildTemplate (context : ContextBundle) (cfg : RunConfig) (language : Text)
    (symbol : Option Text) (promptHints : List Text) : LlmRequest :=
  let strategy := cfg.strategy.resolve cfg.mode
  { prompt := renderPrompt context cfg.mode strategy language promptHints
    mode := cfg.mode
    strategy := strategy
    language := language
    symbol := symbol
    attempt := 0
    repairFeedback := none }

/-- The fixed collaborators of processing one target. -/
structure Pipeline where
  rt : RankedTarget
  context : ContextBundle
  promptHints : List Text
  cfg : RunConfig

namespace Pipeline

variable [JsonText]

def language (p : Pipeline) : Text := p.rt.target.adapter

/-- The report of an assessed catch. -/
def assessedReport (p : Pipeline) (candidate : TestCandidate) (exec : CatchExecution)
    (mutant : Option MutantInfo) (assessment : WeakCatchAssessment) : CatchReport :=
  CatchReport.fromAssessment p.rt.target.id p.language (reportPath candidate.relPath)
    (redact candidate.source).text assessment mutant
    (some (reportPath p.rt.target.path)) (some p.rt.target.span.start)
    (redact (reproduction p.language candidate.relPath)).text
    (if p.cfg.surfaceEvidence then some (catchEvidence exec) else none)

section

variable (p : Pipeline) (c : TestCandidate) (exec : CatchExecution) (mutant : Option MutantInfo)
  (a : WeakCatchAssessment)

omit [JsonText]

@[simp] theorem assessedReport_path :
    (p.assessedReport c exec mutant a).path = (redact c.relPath).text := rfl

@[simp] theorem assessedReport_source :
    (p.assessedReport c exec mutant a).source = (redact c.source).text := rfl

@[simp] theorem assessedReport_decision :
    (p.assessedReport c exec mutant a).decision = a.decision := rfl

end

/-- Assess a confirmed weak catch and report it, whatever the decision. -/
def reportAssessedCatch (p : Pipeline) (candidate : TestCandidate) (exec : CatchExecution)
    (mutant : Option MutantInfo) (out : TargetOutcome) : Feedback TargetOutcome := do
  let assessment ← Fallible.lift
    (assess exec true (some p.context) p.cfg.realLlm p.cfg.assessCfg)
  return out.reportCatch (p.assessedReport candidate exec mutant assessment)

/-- One more paired run of the candidate. -/
def pairedRun (candidate : TestCandidate) : Feedback CatchExecution := do
  let base ← runCandidate candidate .base
  let head ← runCandidate candidate .head
  return ⟨base, head⟩

/-- Dispatch a stable candidate by mode and class. -/
def classifyStable (p : Pipeline) (candidate : TestCandidate) (path : Text) (c : CatchClass)
    (out : TargetOutcome) : Feedback TargetOutcome :=
  match p.cfg.mode, c with
  | .harden, .hardenPass =>
    match acceptLandable p.rt candidate p.language with
    | .ok t => pure (out.accept t)
    | .error reason => pure (out.reject (reject p.rt path reason (some .hardenPass)))
  | .catch, .weakCatch => do
    let exec ← pairedRun candidate
    p.reportAssessedCatch candidate exec none out
  | _, c => pure (out.reject (reject p.rt path "did not reach the goal class" (some c)))

/-- The flake filter of a mode. -/
def flakeFilter (p : Pipeline) (candidate : TestCandidate) : Feedback FlakeReport :=
  match p.cfg.mode with
  | .harden => flakeFilterSingle candidate .head p.cfg.reruns
  | .catch => flakeFilterCatch candidate p.cfg.reruns

/-- Repair, flake filter and classification of a generated candidate. -/
def candidate (p : Pipeline) (initial : TestCandidate) (out : TargetOutcome) :
    Feedback TargetOutcome := do
  let template := buildTemplate p.context p.cfg p.language p.rt.target.symbol p.promptHints
  let report ← repairLoop initial template p.cfg.mode p.cfg.maxAttempts
  let path := report.candidate.relPath
  match report.outcome with
  | .exhausted =>
    return out.reject (reject p.rt path "repair budget exhausted before reaching goal"
      (some report.classified.class))
  | .rejected =>
    return out.reject (reject p.rt path "failed static validation (dangerous construct)"
      (some report.classified.class))
  | .accepted => do
    let stable ← p.flakeFilter report.candidate
    if stable.stable then
      p.classifyStable report.candidate path stable.class out
    else
      return out.reject (reject p.rt path "flaky (nondeterministic across reruns)" (some .flaky))

/-- The redacted projection of a mutant for a report. -/
def mutantInfo (m : Mutant) : MutantInfo :=
  ⟨m.id, (redact m.riskDescription).text, (redact m.path).text⟩

/-- Confirm and assess a harvested catch. -/
def harvested (p : Pipeline) (h : HarvestedCatch) (out : TargetOutcome) :
    Feedback TargetOutcome :=
  let path := h.candidate.relPath
  if h.class ≠ .weakCatch then
    pure (out.reject (reject p.rt path "replay was not a weak catch" (some h.class)))
  else do
    let stable ← flakeFilterCatch h.candidate p.cfg.reruns
    if stable.stable && stable.class == .weakCatch then do
      let exec ← pairedRun h.candidate
      p.reportAssessedCatch h.candidate exec (some (mutantInfo h.mutant)) out
    else
      return out.reject (reject p.rt path "did not stably reproduce as a weak catch across reruns"
        (some (if stable.stable then stable.class else .flaky)))

variable {p : Pipeline} {c : TestCandidate} {t : Trace Ans} {out out' : TargetOutcome}

omit [WordChars] [JsonText] in
private theorem returns_pairedRun {exec : CatchExecution} :
    (pairedRun c).Returns t exec ↔
      t = [ranCandidate c .base exec.base, ranCandidate c .head exec.head] := by
  unfold pairedRun
  simp only [Fallible.returns_bind, returns_runCandidate, Fallible.returns_pure]
  constructor
  · rintro ⟨_, _, base, rfl, rfl, _, _, head, rfl, rfl, rfl, rfl⟩
    rfl
  · rintro rfl
    exact ⟨_, _, _, rfl, rfl, _, [], _, rfl, rfl, rfl, rfl⟩

private theorem returns_reportAssessedCatch {exec : CatchExecution} {mutant : Option MutantInfo}
    (h : (p.reportAssessedCatch c exec mutant out).Returns t out') :
    ∃ a, (assess exec true (some p.context) p.cfg.realLlm p.cfg.assessCfg).Runs t a ∧
      out' = out.reportCatch (p.assessedReport c exec mutant a) := by
  obtain ⟨t₁, t₂, a, rfl, ha, hr⟩ := Fallible.returns_bind.mp h
  obtain ⟨rfl, rfl⟩ := Fallible.returns_pure.mp hr
  exact ⟨a, by simpa using Fallible.returns_lift.mp ha, rfl⟩

theorem returns_assessedRun {mutant : Option MutantInfo}
    (h : (pairedRun c >>= fun exec => p.reportAssessedCatch c exec mutant out).Returns t out') :
    ∃ exec t' a, t = ranCandidate c .base exec.base :: ranCandidate c .head exec.head :: t' ∧
      (assess exec true (some p.context) p.cfg.realLlm p.cfg.assessCfg).Runs t' a ∧
      out' = out.reportCatch (p.assessedReport c exec mutant a) := by
  obtain ⟨t₁, t₂, exec, rfl, hrun, hr⟩ := Fallible.returns_bind.mp h
  obtain ⟨a, ha, rfl⟩ := returns_reportAssessedCatch hr
  rw [returns_pairedRun.mp hrun]
  exact ⟨exec, t₂, a, rfl, ha, rfl⟩

theorem returns_classifyStable {path : Text} {k : CatchClass}
    (h : (p.classifyStable c path k out).Returns t out') :
    (∃ r, out' = out.reject r) ∨
      (∃ a, out' = out.accept a ∧ p.cfg.mode = .harden ∧ k = .hardenPass ∧
        acceptLandable p.rt c p.language = .ok a) ∨
      p.cfg.mode = .catch ∧ k = .weakCatch ∧
        (pairedRun c >>= fun exec => p.reportAssessedCatch c exec none out).Returns t out' := by
  unfold classifyStable at h
  split at h
  · rename_i hmode
    cases hland : acceptLandable p.rt c p.language with
    | ok a =>
      rw [hland] at h
      exact .inr (.inl ⟨a, (Fallible.returns_pure.mp h).2, hmode, rfl, rfl⟩)
    | error reason =>
      rw [hland] at h
      exact .inl ⟨_, (Fallible.returns_pure.mp h).2⟩
  · rename_i hmode
    exact .inr (.inr ⟨hmode, rfl, h⟩)
  · exact .inl ⟨_, (Fallible.returns_pure.mp h).2⟩

theorem returns_candidate {initial : TestCandidate}
    (h : (p.candidate initial out).Returns t out') :
    (∃ r, out' = out.reject r) ∨
      ∃ t₁ t₂ t₃ report stable, t = t₁ ++ (t₂ ++ t₃) ∧
        (repairLoop initial
          (buildTemplate p.context p.cfg p.language p.rt.target.symbol p.promptHints)
          p.cfg.mode p.cfg.maxAttempts).Returns t₁ report ∧
        report.outcome = .accepted ∧ (p.flakeFilter report.candidate).Returns t₂ stable ∧
        (p.classifyStable report.candidate report.candidate.relPath stable.class out).Returns
          t₃ out' := by
  have ⟨t₁, t', report, ht, hloop, h⟩ := Fallible.returns_bind.mp h
  dsimp only at h
  split at h
  · exact .inl ⟨_, (Fallible.returns_pure.mp h).2⟩
  · exact .inl ⟨_, (Fallible.returns_pure.mp h).2⟩
  · rename_i haccepted
    have ⟨t₂, t₃, stable, ht', hflake, h⟩ := Fallible.returns_bind.mp h
    rw [ht'] at ht
    split_ifs at h
    · exact .inr ⟨t₁, t₂, t₃, report, stable, ht, hloop, haccepted, hflake, h⟩
    · exact .inl ⟨_, (Fallible.returns_pure.mp h).2⟩

theorem returns_harvested {hc : HarvestedCatch} (h : (p.harvested hc out).Returns t out') :
    (∃ r, out' = out.reject r) ∨
      ∃ t₁ t₂ stable, t = t₁ ++ t₂ ∧
        (flakeFilterCatch hc.candidate p.cfg.reruns).Returns t₁ stable ∧
        stable.class = .weakCatch ∧
        (pairedRun hc.candidate >>= fun exec =>
          p.reportAssessedCatch hc.candidate exec (some (mutantInfo hc.mutant)) out).Returns
            t₂ out' := by
  unfold harvested at h
  dsimp only at h
  split_ifs at h
  · exact .inl ⟨_, (Fallible.returns_pure.mp h).2⟩
  · have ⟨t₁, t₂, stable, ht, hflake, h⟩ := Fallible.returns_bind.mp h
    split at h
    · rename_i hstable
      rw [Bool.and_eq_true, beq_iff_eq] at hstable
      exact .inr ⟨t₁, t₂, stable, ht, hflake, hstable.2, h⟩
    · exact .inl ⟨_, (Fallible.returns_pure.mp h).2⟩

end Pipeline

variable [JsonText]

/-- Run the full pipeline for one target. -/
def processTarget (rt : RankedTarget) (context : ContextBundle) (promptHints : List Text)
    (cfg : RunConfig) : Feedback TargetOutcome := do
  let language := rt.target.adapter
  let genTarget : GenTarget := ⟨language, rt.target.symbol, testPath rt.target language⟩
  let generated ← generateCandidates context genTarget cfg.strategy cfg.mode cfg.strategyCfg
  let pipeline : Pipeline := ⟨rt, context, promptHints, cfg⟩
  let out := { TargetOutcome.default with
    candidatesGenerated := generated.candidates.length + generated.catches.length }
  let out ← generated.candidates.foldlM (fun out c => pipeline.candidate c out) out
  generated.catches.foldlM (fun out h => pipeline.harvested h out) out

/-- Where a target's test is placed and what its requests name. -/
def genTargetOf (rt : RankedTarget) : GenTarget :=
  ⟨rt.target.adapter, rt.target.symbol, testPath rt.target rt.target.adapter⟩

/-- The harvested catch comes out of some generation for the target. -/
def Generated (rt : RankedTarget) (context : ContextBundle) (cfg : RunConfig)
    (h : HarvestedCatch) : Prop :=
  ∃ t g, (generateCandidates context (genTargetOf rt) cfg.strategy cfg.mode cfg.strategyCfg).Returns
    t g ∧ h ∈ g.catches

theorem processTarget_induction {rt : RankedTarget} {context : ContextBundle}
    {promptHints : List Text} {cfg : RunConfig} {P : Trace Ans → TargetOutcome → Prop}
    (hgen : ∀ t out, out.accepted = [] → out.catches = [] → P t out)
    (hcandidate : ∀ t₁ t₂ out out' c, P t₁ out →
      (Pipeline.candidate ⟨rt, context, promptHints, cfg⟩ c out).Returns t₂ out' →
      P (t₁ ++ t₂) out')
    (hharvested : ∀ t₁ t₂ out out' h, Generated rt context cfg h → P t₁ out →
      (Pipeline.harvested ⟨rt, context, promptHints, cfg⟩ h out).Returns t₂ out' →
      P (t₁ ++ t₂) out')
    {t : Trace Ans} {out : TargetOutcome}
    (h : (processTarget rt context promptHints cfg).Returns t out) : P t out := by
  obtain ⟨t₁, t₂, g, rfl, hg, h⟩ := Fallible.returns_bind.mp h
  obtain ⟨t₃, t₄, mid, rfl, hcs, hhs⟩ := Fallible.returns_bind.mp h
  have hmid : P (t₁ ++ t₃) mid :=
    Fallible.returns_foldlM (hgen t₁ _ rfl rfl)
      (fun _ _ _ _ c _ hP hr => hcandidate _ _ _ _ c hP hr) hcs
  rw [← List.append_assoc]
  exact Fallible.returns_foldlM hmid
    (fun _ _ _ _ h hmem hP hr => hharvested _ _ _ _ h ⟨t₁, g, hg, hmem⟩ hP hr) hhs

end Jitgen
