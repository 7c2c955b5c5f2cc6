import Jitgen.Orchestrator.Doubles

/-!
# No flagged test is executed

Every path that runs a candidate screens it first. The screening facts travel with the values the
stages return: an accepted repair report and a harvested catch both carry a screened candidate.
-/

namespace Jitgen

open Fallible

/-- Every candidate handed to the executor by this event passed static validation. -/
def ScreenedRun (e : Event Ans) : Prop :=
  ∀ c v, e.1 = .runCandidate c v → (validateCandidate c.source).ok = true

def Screened (c : TestCandidate) : Prop := (validateCandidate c.source).ok = true

/-- A call that asks for a reply or runs a screened candidate. -/
def StageCall (e : Event Ans) : Prop :=
  (∃ req, e.1 = .generate req) ∨ ∃ c v, e.1 = .runCandidate c v ∧ Screened c

theorem StageCall.screened {e : Event Ans} (h : StageCall e) : ScreenedRun e := by
  intro c v hcv
  rcases h with ⟨req, hreq⟩ | ⟨c', v', hrun, hc⟩
  · rw [hreq] at hcv
    cases hcv
  · rw [hrun] at hcv
    cases hcv
    exact hc

theorem generate_screened (req : LlmRequest) : Calls StageCall (generate req) :=
  calls_attempt fun _ => .inl ⟨req, rfl⟩

private theorem runExisting_screened (v : Variant) : Calls ScreenedRun (runExisting v) :=
  calls_attempt fun _ _ _ h => by cases h

private theorem runCandidate_screened {c : TestCandidate} (hc : Screened c) (v : Variant) :
    Calls StageCall (runCandidate c v) :=
  calls_attempt fun _ => .inr ⟨c, v, rfl, hc⟩

private theorem runPair_screened {α : Type} {c : TestCandidate} (hc : Screened c)
    (f : ExecutionResult → ExecutionResult → Feedback α)
    (hf : ∀ base head, Calls StageCall (f base head)) :
    Calls StageCall (runCandidate c .base >>= fun base =>
      runCandidate c .head >>= fun head => f base head) :=
  calls_bind (runCandidate_screened hc _) fun _ base _ =>
    calls_bind (runCandidate_screened hc _) fun _ head _ => hf base head

private theorem observe_screened {trial : Feedback CatchClass} (h : Calls StageCall trial)
    (n : Nat) :
    Calls StageCall (observe trial n) := by
  induction n with
  | zero => exact calls_pure _
  | succ n ih => exact calls_bind h fun _ _ _ => calls_bind ih fun _ _ _ => calls_pure _

private theorem flakeFilterSingle_screened {c : TestCandidate} (hc : Screened c) (v : Variant)
    (reruns : Nat) : Calls StageCall (flakeFilterSingle c v reruns) :=
  calls_bind
    (observe_screened (calls_bind (runCandidate_screened hc v) fun _ _ _ => calls_pure _) _)
    fun _ _ _ => calls_pure _

private theorem flakeFilterCatch_screened {c : TestCandidate} (hc : Screened c) (reruns : Nat) :
    Calls StageCall (flakeFilterCatch c reruns) :=
  calls_bind (observe_screened (runPair_screened hc _ fun _ _ => calls_pure _) _)
    fun _ _ _ => calls_pure _

theorem generateSimple_screened (prompt : Prompt) (context : ContextBundle) (target : GenTarget)
    (mode : Mode) (strategy : Strategy) (attempts : List Nat) :
    Calls StageCall (generateSimple prompt context target mode strategy attempts) := by
  induction attempts with
  | nil => exact calls_pure _
  | cons attempt rest ih =>
    exact calls_bind (generate_screened _) fun _ _ _ => calls_bind ih fun _ _ _ => calls_pure _

private theorem keepValid_screened (ms : List Mutant) :
    Calls ScreenedRun (IntentAware.keepValid ms) := by
  induction ms with
  | nil => exact calls_pure _
  | cons m ms ih =>
    exact calls_bind (runExisting_screened _) fun _ _ _ =>
      calls_bind ih fun _ _ _ => calls_pure _

section

variable [WordChars]

private theorem trial_screened {c : TestCandidate} (hc : Screened c) (mode : Mode) :
    Calls StageCall (trial c mode) := by
  cases mode with
  | harden => exact calls_bind (runCandidate_screened hc _) fun _ _ _ => calls_pure _
  | «catch» => exact runPair_screened hc _ fun _ _ => calls_pure _

private theorem repairFrom_screened (template : LlmRequest) (initial : TestCandidate) (mode : Mode)
    (maxAttempts left : Nat) (previous : TestCandidate) (last : Option ClassifiedResult)
    (feedback : Text) :
    Calls StageCall
      (repairFrom template initial mode maxAttempts left previous last feedback) := by
  induction left generalizing previous last feedback with
  | zero => exact calls_pure _
  | succ left ih =>
    rw [repairFrom]
    refine calls_bind ?_ fun _ c _ => ?_
    · unfold attemptCandidate
      split_ifs
      · exact calls_pure _
      · exact calls_bind (generate_screened _) fun _ _ _ => calls_pure _
    · dsimp only
      split_ifs with hok
      · exact calls_pure _
      · exact ih _ _ _
      · refine calls_bind (trial_screened (by simpa [Screened] using hok) mode) fun _ _ _ => ?_
        split_ifs
        · exact calls_pure _
        · exact ih _ _ _

private theorem repairLoop_screened (initial : TestCandidate) (template : LlmRequest) (mode : Mode)
    (maxAttempts : Nat) : Calls StageCall (repairLoop initial template mode maxAttempts) := by
  unfold repairLoop
  split_ifs
  · exact calls_throw _
  · exact repairFrom_screened _ _ _ _ _ _ _ _

private theorem harvest_screened (context : ContextBundle) (target : GenTarget) (m : Mutant) :
    Calls StageCall (IntentAware.harvest context target m) := by
  refine calls_bind (generate_screened _) fun _ resp _ => ?_
  dsimp only
  split_ifs with hok
  · exact calls_pure _
  · have hc : Screened (parseCandidate resp.raw context.target target.relPath 0) := by
      simpa [Screened] using hok
    refine calls_bind (runCandidate_screened hc _) fun _ base _ =>
      calls_bind (runCandidate_screened hc _) fun _ onMutant _ => ?_
    split_ifs
    · exact calls_bind (runCandidate_screened hc _) fun _ _ _ => calls_pure _
    · exact calls_pure _

private theorem harvest_returns_screened {context : ContextBundle} {target : GenTarget} {m : Mutant}
    {t : Trace Ans} {h : HarvestedCatch}
    (hr : (IntentAware.harvest context target m).Returns t (some h)) : Screened h.candidate := by
  obtain ⟨_, _, resp, -, -, hr⟩ := returns_bind.mp hr
  dsimp only at hr
  split_ifs at hr with hok
  · cases (returns_pure.mp hr).2
  · obtain ⟨_, _, base, -, -, hr⟩ := returns_bind.mp hr
    obtain ⟨_, _, onMutant, -, -, hr⟩ := returns_bind.mp hr
    split_ifs at hr
    · obtain ⟨_, _, head, -, -, hr⟩ := returns_bind.mp hr
      cases (returns_pure.mp hr).2
      simpa [Screened] using hok
    · cases (returns_pure.mp hr).2

theorem harvestAll_screened (context : ContextBundle) (target : GenTarget) (ms : List Mutant) :
    Calls StageCall (IntentAware.harvestAll context target ms) := by
  induction ms with
  | nil => exact calls_pure _
  | cons m ms ih =>
    exact calls_bind (harvest_screened context target m) fun _ _ _ =>
      calls_bind ih fun _ _ _ => calls_pure _

private theorem harvestAll_returns_screened {context : ContextBundle} {target : GenTarget}
    {ms : List Mutant} {t : Trace Ans} {hs : List HarvestedCatch}
    (hr : (IntentAware.harvestAll context target ms).Returns t hs) :
    ∀ h ∈ hs, Screened h.candidate := by
  induction ms generalizing t hs with
  | nil =>
    obtain ⟨-, rfl⟩ := returns_pure.mp hr
    simp
  | cons m ms ih =>
    obtain ⟨_, _, h₁, -, hm, hr⟩ := returns_bind.mp hr
    obtain ⟨_, _, hs', -, hms, hr⟩ := returns_bind.mp hr
    obtain ⟨-, rfl⟩ := returns_pure.mp hr
    intro h hh
    rcases List.mem_append.mp hh with hh | hh
    · rw [Option.mem_toList.mp hh] at hm
      exact harvest_returns_screened hm
    · exact ih hms h hh

private theorem intentAware_screened (context : ContextBundle) (target : GenTarget)
    (cfg : StrategyConfig) : Calls ScreenedRun (IntentAware.run context target cfg) := by
  have hask : ∀ req, Calls ScreenedRun (generate req) := fun req =>
    (generate_screened req).mono fun _ => StageCall.screened
  refine calls_bind (hask _) fun _ _ _ => ?_
  dsimp only
  split_ifs
  · exact calls_pure _
  · refine calls_bind (hask _) fun _ _ _ => ?_
    split_ifs
    · exact calls_pure _
    · exact calls_bind (keepValid_screened _) fun _ _ _ =>
        (harvestAll_screened _ _ _).mono fun _ => StageCall.screened

private theorem intentAware_returns_screened {context : ContextBundle} {target : GenTarget}
    {cfg : StrategyConfig} {t : Trace Ans} {hs : List HarvestedCatch}
    (hr : (IntentAware.run context target cfg).Returns t hs) :
    ∀ h ∈ hs, Screened h.candidate := by
  obtain ⟨_, _, _, -, -, hr⟩ := returns_bind.mp hr
  dsimp only at hr
  split_ifs at hr
  · obtain ⟨-, rfl⟩ := returns_pure.mp hr
    simp
  · obtain ⟨_, _, _, -, -, hr⟩ := returns_bind.mp hr
    split_ifs at hr
    · obtain ⟨-, rfl⟩ := returns_pure.mp hr
      simp
    · obtain ⟨_, _, _, -, -, hr⟩ := returns_bind.mp hr
      exact harvestAll_returns_screened hr

private theorem generateCandidates_screened (context : ContextBundle) (target : GenTarget)
    (strategy : Strategy) (mode : Mode) (cfg : StrategyConfig) :
    Calls ScreenedRun (generateCandidates context target strategy mode cfg) := by
  unfold generateCandidates
  split
  · exact calls_bind ((generateSimple_screened _ _ _ _ _ _).mono fun _ => StageCall.screened)
      fun _ _ _ => calls_pure _
  · exact calls_bind ((generateSimple_screened _ _ _ _ _ _).mono fun _ => StageCall.screened)
      fun _ _ _ => calls_pure _
  · exact calls_bind (intentAware_screened _ _ _) fun _ _ _ => calls_pure _

theorem generateCandidates_returns_screened {context : ContextBundle} {target : GenTarget}
    {strategy : Strategy} {mode : Mode} {cfg : StrategyConfig} {t : Trace Ans}
    {g : GenerationOutcome}
    (hr : (generateCandidates context target strategy mode cfg).Returns t g) :
    ∀ h ∈ g.catches, Screened h.candidate := by
  unfold generateCandidates at hr
  split at hr
  all_goals
    obtain ⟨_, _, _, -, hrun, hr⟩ := returns_bind.mp hr
    obtain ⟨-, rfl⟩ := returns_pure.mp hr
  · simp
  · simp
  · exact intentAware_returns_screened hrun

variable [JsonText]

namespace Pipeline

private theorem reportAssessedCatch_screened (p : Pipeline) (c : TestCandidate)
    (exec : CatchExecution) (mutant : Option MutantInfo) (out : TargetOutcome) :
    Calls StageCall (p.reportAssessedCatch c exec mutant out) := by
  refine calls_bind (calls_lift fun t a ht e he => ?_) fun _ _ _ => calls_pure _
  unfold assess at ht
  split_ifs at ht
  · obtain ⟨x, t', rfl, rfl, -⟩ := ht
    rw [List.mem_singleton.mp he]
    exact .inl ⟨_, rfl⟩
  · obtain ⟨rfl, -⟩ := ht
    cases he

private theorem assessedRun_screened (p : Pipeline) {c : TestCandidate} (hc : Screened c)
    (mutant : Option MutantInfo) (out : TargetOutcome) :
    Calls StageCall (pairedRun c >>= fun exec => p.reportAssessedCatch c exec mutant out) :=
  calls_bind (runPair_screened hc _ fun _ _ => calls_pure _) fun _ _ _ =>
    reportAssessedCatch_screened _ _ _ _ _

private theorem candidate_screened (p : Pipeline) (initial : TestCandidate) (out : TargetOutcome) :
    Calls StageCall (p.candidate initial out) := by
  refine calls_bind (repairLoop_screened _ _ _ _) fun t report hr => ?_
  dsimp only
  split
  · exact calls_pure _
  · exact calls_pure _
  · rename_i hacc
    have hc : Screened report.candidate := (repairLoop_accepted hr hacc).1
    refine calls_bind ?_ fun _ stable _ => ?_
    · unfold flakeFilter
      split
      · exact flakeFilterSingle_screened hc _ _
      · exact flakeFilterCatch_screened hc _
    · split_ifs
      · unfold classifyStable
        split
        · split <;> exact calls_pure _
        · exact assessedRun_screened p hc _ _
        · exact calls_pure _
      · exact calls_pure _

private theorem harvested_screened (p : Pipeline) {h : HarvestedCatch} (hc : Screened h.candidate)
    (out : TargetOutcome) : Calls StageCall (p.harvested h out) := by
  unfold harvested
  dsimp only
  split_ifs
  · exact calls_pure _
  · refine calls_bind (flakeFilterCatch_screened hc _) fun _ _ _ => ?_
    split
    · exact assessedRun_screened p hc _ _
    · exact calls_pure _

end Pipeline

theorem stages_screened (p : Pipeline) {g : GenerationOutcome} (out : TargetOutcome)
    (hg : ∀ h ∈ g.catches, Screened h.candidate) :
    Calls StageCall (g.candidates.foldlM (fun out c => p.candidate c out) out >>= fun out =>
      g.catches.foldlM (fun out h => p.harvested h out) out) :=
  calls_bind (calls_foldlM _ fun _ _ _ => Pipeline.candidate_screened _ _ _) fun _ _ _ =>
    calls_foldlM _ fun out h hh => Pipeline.harvested_screened _ (hg h hh) out

private theorem processTarget_screened (rt : RankedTarget) (context : ContextBundle)
    (promptHints : List Text) (cfg : RunConfig) :
    Calls ScreenedRun (processTarget rt context promptHints cfg) :=
  calls_bind (generateCandidates_screened _ _ _ _ _) fun _ _ hg =>
    (stages_screened _ _ (generateCandidates_returns_screened hg)).mono fun _ =>
      StageCall.screened

/-- No flagged test is ever executed, also in a run that ends with an error. -/
theorem processTarget_never_runs_flagged (rt : RankedTarget) (context : ContextBundle)
    (promptHints : List Text) (cfg : RunConfig) (t : Trace Ans)
    (r : Except FeedbackError TargetOutcome)
    (hrun : (processTarget rt context promptHints cfg).Runs t r) (c : TestCandidate) (v : Variant)
    (a : Ans (.runCandidate c v)) (hmem : ⟨.runCandidate c v, a⟩ ∈ t) :
    (validateCandidate c.source).ok = true :=
  processTarget_screened rt context promptHints cfg t r hrun _ hmem c v rfl

end

/-- The scripted run executes its candidate, which is screened. -/
theorem scriptedRun_runs_screened :
    let c := sampleCandidate "assert!(true);"
    ranCandidate c .head (result .passed) ∈
        (scriptedRun .default (fence "assert!(true);") allPass).2 ∧
      (validateCandidate c.source).ok = true :=
  letI := asciiWords
  letI := noJson
  have hmem : ranCandidate (sampleCandidate "assert!(true);") .head (result .passed) ∈
      (scriptedRun .default (fence "assert!(true);") allPass).2 := by decide +kernel
  ⟨hmem, processTarget_never_runs_flagged sampleTarget sampleContext [] .default _ _
    (Prog.runs_run _ _ _) _ _ _ hmem⟩

end Jitgen
