import Jitgen.Properties.NewPaths
import Jitgen.Properties.ScreenedRuns

/-!
# Mutants that are dropped

A mutant is kept when the existing suite passes on it. The suite cannot even be run on a mutant that
does not apply to the base, and that failure ends the target instead of dropping the mutant.
-/

namespace Jitgen

open Text Fallible

namespace SandboxExecutor

variable {H : Type} {revs : Revisions}

/-- The answers, but the existing suite has a verdict on a mutant that cannot be materialised. -/
def droppingAnswer (revs : Revisions) (host : Host H) (verdict : ExecutionResult) (h : H)
    (o : PipelineOp) : Ans o :=
  match o with
  | .runExisting (.mutant m) =>
    if unmaterialisable revs m then .ok verdict else answer revs host h (.runExisting (.mutant m))
  | o => answer revs host h o

/-- The existing suite is not called on a mutant that cannot be materialised. -/
def SuiteMaterialises (revs : Revisions) (o : PipelineOp) : Prop :=
  ∀ m, o = .runExisting (.mutant m) → unmaterialisable revs m = false

private theorem answer_eq_dropping {host : Host H} (verdict : ExecutionResult) (h : H)
    {o : PipelineOp} (ho : SuiteMaterialises revs o) :
    answer revs host h o = droppingAnswer revs host verdict h o := by
  cases o with
  | generate req => rfl
  | runCandidate c v => rfl
  | runExisting v =>
    cases v with
    | base => rfl
    | head => rfl
    | mutant m => simp [droppingAnswer, ho m rfl]

private theorem answer_unmaterialisable {host : Host H} {h : H} {m : Mutant}
    (hm : unmaterialisable revs m = true) (x : ExecutionResult) :
    answer revs host h (.runExisting (.mutant m)) ≠ .ok x := by
  intro hok
  obtain ⟨root, -, hrun⟩ := bind_eq_ok.mp hok
  obtain ⟨e, he⟩ := populateOverlay_of_unmaterialisable hm
  simp [he] at hrun

end SandboxExecutor

/-- The replies a provider may give to each request. -/
abbrev Replies := LlmRequest → LlmResponse → Prop

/-- Every reply of the host's provider is one of these. -/
def Host.Follows {H : Type} (host : Host H) (replies : Replies) : Prop :=
  ∀ h req r, host.provide h req = .ok r → replies req r

namespace IntentAware

variable [WordChars]

def risksRequest (context : ContextBundle) (target : GenTarget) : LlmRequest :=
  stepRequest target (Prompts.inferRisksPrompt context)

def mutantsRequest (context : ContextBundle) (target : GenTarget) (risks : List Text) :
    LlmRequest :=
  stepRequest target (Prompts.makeMutantsPrompt context risks)

/-- The mutants that a reply yields, as many as the suite is run on. -/
def plannedMutants (context : ContextBundle) (cfg : StrategyConfig)
    (risks : List Text) (reply : LlmResponse) : List Mutant :=
  (attachRisks risks (parseMutants reply.raw context.target)).take cfg.maxMutants

/-- Some replies to the two planning requests of the target yield the mutant. -/
def Planned (replies : Replies) (context : ContextBundle) (target : GenTarget)
    (cfg : StrategyConfig) (m : Mutant) : Prop :=
  ∃ r r', replies (risksRequest context target) r ∧ parseRisks r.raw ≠ [] ∧
    replies (mutantsRequest context target (parseRisks r.raw)) r' ∧
    m ∈ plannedMutants context cfg (parseRisks r.raw) r'

end IntentAware

/-- A program gives the same value against both environments, or none against either. -/
def SameValue {Op : Type} {A : Op → Type} {ε α : Type} (env₁ env₂ : Env A) (h : Trace A)
    (p : Fallible ε A α) : Prop :=
  (p.run.run env₁ h).1.toOption = (p.run.run env₂ h).1.toOption

private theorem sameValue_of_eq {Op : Type} {A : Op → Type} {ε α : Type} {env₁ env₂ : Env A}
    {h : Trace A} {p : Fallible ε A α} (heq : p.run.run env₁ h = p.run.run env₂ h) :
    SameValue env₁ env₂ h p := by
  unfold SameValue
  rw [heq]

section

variable [WordChars] [JsonText] [Serde] [Digest]

open SandboxExecutor

/-- For every host that follows the replies, a mutant that cannot be materialised is only dropped:
all goes on as if the existing suite had failed on it. -/
structure OnlyDropped (revs : Revisions) (d : TargetDriver) (ranked : List RankedTarget)
    (replies : Replies) : Prop where
  intentAware : ∀ host : Host (Trace Ans), host.Follows replies → ∀ verdict, ¬ verdict.passed →
    ∀ rt ∈ ranked, ∀ h, SameValue (answer revs host) (droppingAnswer revs host verdict) h
      (IntentAware.run (d.context rt.target) (genTargetOf rt) d.runConfig.strategyCfg)
  processTarget : ∀ host : Host (Trace Ans), host.Follows replies → ∀ verdict, ¬ verdict.passed →
    ∀ rt ∈ ranked, ∀ h, SameValue (answer revs host) (droppingAnswer revs host verdict) h
      (processTarget rt (d.context rt.target) d.promptHints d.runConfig)
  driveTargets : ∀ host : Host (Trace (DriveAns Ans)), host.Follows replies →
    ∀ verdict, ¬ verdict.passed → ∀ store run configFp h,
      SameValue (driveEnv store (answer revs host))
        (driveEnv store (droppingAnswer revs host verdict)) h
        (driveTargets run ranked configFp d.process)

section

variable {replies : Replies} {revs : Revisions}

/-- The event is a reply that the provider may give, if it is a reply. -/
def Known (replies : Replies) (e : Event Ans) : Prop :=
  ∀ req r, e = ⟨.generate req, .ok r⟩ → replies req r

omit [WordChars] [JsonText] [Serde] [Digest] in
private theorem StageCall.suiteMaterialises {e : Event Ans} (h : StageCall e) :
    SuiteMaterialises revs e.1 := by
  intro m hm
  rcases h with ⟨req, hreq⟩ | ⟨c, v, hrun, -⟩
  · rw [hreq] at hm
    cases hm
  · rw [hrun] at hm
    cases hm

omit [WordChars] [JsonText] [Serde] [Digest] in
private theorem keepValid_calls (ms : List Mutant) :
    Calls (fun e => ∀ m, e.1 = .runExisting (.mutant m) → m ∈ ms) (IntentAware.keepValid ms) := by
  induction ms with
  | nil => exact calls_pure _
  | cons m ms ih =>
    refine calls_bind (calls_attempt fun x m' hm => ?_) fun _ _ _ => ?_
    · cases hm
      exact List.mem_cons_self
    · refine calls_bind (ih.mono fun e he m' hm => ?_) fun _ _ _ => calls_pure _
      exact List.mem_cons_of_mem _ (he m' hm)

omit [JsonText] [Serde] [Digest] in
/-- The suite is run on planned mutants only. -/
private theorem intentAware_calls {context : ContextBundle} {target : GenTarget}
    {cfg : StrategyConfig} (hplan : ∀ m, IntentAware.Planned replies context target cfg m →
      unmaterialisable revs m = false) :
    CallsGiven (Known replies) (fun e => SuiteMaterialises revs e.1)
      (IntentAware.run context target cfg) := by
  have hask : ∀ req, CallsGiven (Known replies) (fun e => SuiteMaterialises revs e.1)
      (generate req) := fun req =>
    ((generate_screened req).mono fun _ => StageCall.suiteMaterialises).given
  refine callsGiven_bind (hask _) fun t r hr hknown => ?_
  have hreply : replies (IntentAware.risksRequest context target) r := by
    rw [returns_generate.mp hr] at hknown
    exact hknown _ List.mem_cons_self _ _ rfl
  dsimp only
  split_ifs with hrisks
  · exact (calls_pure _).given
  · refine callsGiven_bind (hask _) fun t' r' hr' hknown' => ?_
    have hreply' : replies (IntentAware.mutantsRequest context target (parseRisks r.raw)) r' := by
      rw [returns_generate.mp hr'] at hknown'
      exact hknown' _ List.mem_cons_self _ _ rfl
    split_ifs
    · exact (calls_pure _).given
    · refine callsGiven_bind ((keepValid_calls _).mono fun e he m hm => ?_).given
        fun _ _ _ _ => ((harvestAll_screened _ _ _).mono fun _ => StageCall.suiteMaterialises).given
      exact hplan m ⟨r, r', hreply, by simpa using hrisks, hreply', he m hm⟩

omit [Serde] [Digest] in
private theorem processTarget_calls {rt : RankedTarget} {context : ContextBundle}
    (hints : List Text) {cfg : RunConfig}
    (hplan : ∀ m, IntentAware.Planned replies context (genTargetOf rt) cfg.strategyCfg m →
      unmaterialisable revs m = false) :
    CallsGiven (Known replies) (fun e => SuiteMaterialises revs e.1)
      (processTarget rt context hints cfg) := by
  have hstage : ∀ {α : Type} {p : Feedback α}, Calls StageCall p →
      CallsGiven (Known replies) (fun e => SuiteMaterialises revs e.1) p := fun hp =>
    (hp.mono fun _ => StageCall.suiteMaterialises).given
  refine callsGiven_bind ?_ fun _ _ hg _ =>
    hstage (stages_screened _ _ (generateCandidates_returns_screened hg))
  unfold generateCandidates
  split
  · exact callsGiven_bind (hstage (generateSimple_screened _ _ _ _ _ _)) fun _ _ _ _ =>
      (calls_pure _).given
  · exact callsGiven_bind (hstage (generateSimple_screened _ _ _ _ _ _)) fun _ _ _ _ =>
      (calls_pure _).given
  · exact callsGiven_bind (intentAware_calls hplan) fun _ _ _ _ => (calls_pure _).given

/-- The same events in a drive. -/
def KnownStep (replies : Replies) (e : Event (DriveAns Ans)) : Prop :=
  ∀ req r, e = ⟨.ext (.generate req), .ok r⟩ → replies req r

def StepMaterialises (revs : Revisions) (o : DriveOp PipelineOp) : Prop :=
  ∀ p, o = .ext p → SuiteMaterialises revs p

omit [Serde] [Digest] in
private theorem process_calls {d : TargetDriver} {rt : RankedTarget}
    (hplan : ∀ m, IntentAware.Planned replies (d.context rt.target) (genTargetOf rt)
      d.runConfig.strategyCfg m → unmaterialisable revs m = false) :
    CallsGiven (KnownStep replies) (fun e => StepMaterialises revs e.1) (d.process rt) := by
  unfold TargetDriver.process
  split_ifs
  · apply callsGiven_mapError
    apply callsGiven_hoist
    refine (processTarget_calls d.promptHints hplan).mono (fun e he req r heq => ?_)
      fun e he p hp => ?_
    · rw [heq] at he
      exact he req r rfl
    · cases hp
      exact he
  · exact (calls_throw _).given

omit [WordChars] [JsonText] [Serde] [Digest] in
private theorem sameValue_of_calls {host : Host (Trace Ans)} (hf : host.Follows replies)
    (verdict : ExecutionResult) {α : Type} {p : Feedback α} (h : Trace Ans)
    (hp : CallsGiven (Known replies) (fun e => SuiteMaterialises revs e.1) p) :
    SameValue (answer revs host) (droppingAnswer revs host verdict) h p := by
  apply sameValue_of_eq
  apply Prog.run_congr (SuiteMaterialises revs)
  · intro past o ho
    exact answer_eq_dropping verdict past ho
  · apply hp _ _ (Prog.runs_run _ _ _)
    intro e he req r heq
    obtain ⟨h', hans⟩ := Prog.answer_of_mem_run he
    rw [heq] at hans
    exact hf h' req r hans.symm

/-- Where every planned mutant applies to the base, nothing is dropped. -/
private theorem onlyDropped_of_materialises {d : TargetDriver} {ranked : List RankedTarget}
    (hplan : ∀ rt ∈ ranked, ∀ m, IntentAware.Planned replies (d.context rt.target) (genTargetOf rt)
      d.runConfig.strategyCfg m → unmaterialisable revs m = false) :
    OnlyDropped revs d ranked replies where
  intentAware host hf verdict _ rt hrt h :=
    sameValue_of_calls hf verdict h (intentAware_calls (hplan rt hrt))
  processTarget host hf verdict _ rt hrt h :=
    sameValue_of_calls hf verdict h (processTarget_calls d.promptHints (hplan rt hrt))
  driveTargets := by
    intro host hf verdict _ store run configFp h
    have hcalls : CallsGiven (KnownStep replies) (fun e => StepMaterialises revs e.1)
        (driveTargets run ranked configFp d.process) :=
      driveTargets_calls (fun o x p hp => by cases hp) fun rt hrt => process_calls (hplan rt hrt)
    apply sameValue_of_eq
    apply Prog.run_congr (StepMaterialises revs)
    · intro past o ho
      cases o with
      | store o => rfl
      | ext o => exact answer_eq_dropping verdict past (ho o rfl)
    · apply hcalls _ _ (Prog.runs_run _ _ _)
      intro e he req r heq
      obtain ⟨h', hans⟩ := Prog.answer_of_mem_run he
      rw [heq] at hans
      exact hf h' req r hans.symm

/-- Every suite that is run on one of the mutants has a verdict, and it is not a pass. -/
def FailsOn (env : Env Ans) (ms : List Mutant) : Prop :=
  ∀ m ∈ ms, ∀ h, ∃ x, env h (.runExisting (.mutant m)) = .ok x ∧ ¬ x.passed

omit [WordChars] [JsonText] [Serde] [Digest] in
private theorem keepValid_of_fails {env : Env Ans} {ms : List Mutant} (hfails : FailsOn env ms)
    (h : Trace Ans) : ((IntentAware.keepValid ms).run.run env h).1 = .ok [] := by
  induction ms generalizing h with
  | nil => rfl
  | cons m ms ih =>
    obtain ⟨x, hx, hverdict⟩ := hfails m List.mem_cons_self h
    have hfirst : ((runExisting (.mutant m)).run.run env h).1 = .ok x := run_attempt_ok hx
    have hrest := ih fun m' hm' => hfails m' (List.mem_cons_of_mem _ hm')
    show ((runExisting (.mutant m) >>= fun existing => IntentAware.keepValid ms >>= fun valid =>
      pure (if existing.passed then { m with status := .valid } :: valid else valid)).run.run
        env h).1 = .ok []
    rw [run_bind_ok hfirst, run_bind_ok (hrest _), if_neg hverdict]
    rfl

omit [WordChars] [JsonText] [Serde] [Digest] in
private theorem keepValid_returns_ran {ms valid : List Mutant} {t : Trace Ans}
    (h : (IntentAware.keepValid ms).Returns t valid) :
    ∀ m ∈ ms, ∃ x, ⟨.runExisting (.mutant m), .ok x⟩ ∈ t := by
  induction ms generalizing t valid with
  | nil => simp
  | cons m ms ih =>
    obtain ⟨t₁, t₂, x, rfl, hx, h⟩ := returns_bind.mp h
    obtain ⟨t₃, t₄, _, rfl, hrest, -⟩ := returns_bind.mp h
    rw [returns_runExisting.mp hx]
    intro m' hm'
    rcases List.mem_cons.mp hm' with rfl | hm'
    · exact ⟨x, by simp⟩
    · obtain ⟨y, hy⟩ := ih hrest m' hm'
      exact ⟨y, by simp [hy]⟩

/-- A host that gives the two planning replies, and on which every suite fails. -/
def planningHost (req₁ req₂ : LlmRequest) (r₁ r₂ : LlmResponse) : Host (Trace Ans) where
  provide h req :=
    if h.isEmpty ∧ req = req₁ then .ok r₁
    else if ¬ h.isEmpty ∧ req = req₂ then .ok r₂
    else .error (.provider "no reply")
  overlayDir := fun _ _ => .ok []
  execute := fun _ _ _ => .ok (result .failed)

section

variable {req₁ req₂ : LlmRequest} {r₁ r₂ : LlmResponse}

omit [WordChars] [JsonText] [Serde] [Digest] in
private theorem planningHost_first : (planningHost req₁ req₂ r₁ r₂).provide [] req₁ = .ok r₁ :=
  if_pos ⟨rfl, rfl⟩

omit [WordChars] [JsonText] [Serde] [Digest] in
private theorem planningHost_second (e : Event Ans) (h : Trace Ans) :
    (planningHost req₁ req₂ r₁ r₂).provide (e :: h) req₂ = .ok r₂ := by
  unfold planningHost
  dsimp only
  rw [if_neg (by simp), if_pos ⟨by simp, rfl⟩]

omit [WordChars] [JsonText] [Serde] [Digest] in
private theorem planningHost_follows (h₁ : replies req₁ r₁) (h₂ : replies req₂ r₂) :
    (planningHost req₁ req₂ r₁ r₂).Follows replies := by
  intro h req r hr
  simp only [planningHost] at hr
  split_ifs at hr with hfirst hsecond
  · cases hr
    rw [hfirst.2]
    exact h₁
  · cases hr
    rw [hsecond.2]
    exact h₂

omit [WordChars] [JsonText] [Serde] [Digest] in
private theorem droppingAnswer_fails {m₀ : Mutant} (hm₀ : unmaterialisable revs m₀ = true)
    (ms : List Mutant) :
    FailsOn (droppingAnswer revs (planningHost req₁ req₂ r₁ r₂) (result .failed)) ms := by
  intro m _ h
  refine ⟨result .failed, ?_, by decide⟩
  obtain ⟨o, ho, -⟩ := (unmaterialisable_iff revs m₀).mp hm₀
  simp only [droppingAnswer]
  split_ifs with hm
  · rfl
  · cases hmutate : mutateOverlay o m with
    | error e => simp [unmaterialisable, ho, hmutate, Except.isOk, Except.toBool] at hm
    | ok overlay =>
      have hpop : populateOverlay revs (.mutant m) .empty = .ok overlay := by
        simp only [populateOverlay, ho, Except.mapError]
        exact hmutate
      simp only [answer, runInFreshOverlay]
      rw [hpop]
      rfl

end

omit [JsonText] [Serde] [Digest] in
/-- After the two planning replies the suite is run on the planned mutants. -/
private theorem intentAware_run_planned (env : Env Ans) {context : ContextBundle}
    {target : GenTarget}
    {cfg : StrategyConfig} {r₁ r₂ : LlmResponse} (hrisks : parseRisks r₁.raw ≠ [])
    (hmutants : IntentAware.plannedMutants context cfg (parseRisks r₁.raw) r₂ ≠ [])
    (h₁ : env [] (.generate (IntentAware.risksRequest context target)) = .ok r₁)
    (h₂ : ∀ e h, env (e :: h)
      (.generate (IntentAware.mutantsRequest context target (parseRisks r₁.raw))) = .ok r₂) :
    ∃ h, ((IntentAware.run context target cfg).run.run env []).1 =
      ((IntentAware.keepValid (IntentAware.plannedMutants context cfg (parseRisks r₁.raw) r₂) >>=
        fun valid => IntentAware.harvestAll context target valid).run.run env h).1 := by
  have hparsed : ¬ (parseMutants r₂.raw context.target).isEmpty = true := by
    intro hempty
    rw [List.isEmpty_iff] at hempty
    simp [IntentAware.plannedMutants, IntentAware.attachRisks, hempty] at hmutants
  have hfirst : ((generate (IntentAware.risksRequest context target)).run.run env []).1 = .ok r₁ :=
    run_attempt_ok h₁
  have hsecond : ∀ e h, ((generate (IntentAware.mutantsRequest context target
      (parseRisks r₁.raw))).run.run env (e :: h)).1 = .ok r₂ := fun e h => run_attempt_ok (h₂ e h)
  let past := [] ++ ((generate (IntentAware.risksRequest context target)).run.run env []).2
  refine ⟨past ++ ((generate (IntentAware.mutantsRequest context target
    (parseRisks r₁.raw))).run.run env past).2, ?_⟩
  refine (run_bind_ok hfirst).trans ?_
  dsimp only
  rw [if_neg (by simpa using hrisks)]
  refine (run_bind_ok (hsecond _ _)).trans ?_
  rw [if_neg hparsed]
  rfl

omit [JsonText] [Serde] [Digest] in
/-- A run whose replies yield a mutant that does not apply ends with an error, where the verdict
would have let it return. -/
private theorem intentAware_aborts {context : ContextBundle} {target : GenTarget}
    {cfg : StrategyConfig} {r₁ r₂ : LlmResponse} {m : Mutant} (hrisks : parseRisks r₁.raw ≠ [])
    (hm : m ∈ IntentAware.plannedMutants context cfg (parseRisks r₁.raw) r₂)
    (hbad : unmaterialisable revs m = true) :
    let host := planningHost (IntentAware.risksRequest context target)
      (IntentAware.mutantsRequest context target (parseRisks r₁.raw)) r₁ r₂
    ¬ SameValue (answer revs host) (droppingAnswer revs host (result .failed)) []
      (IntentAware.run context target cfg) := by
  intro host hsame
  have hmutants := List.ne_nil_of_mem hm
  have h₁ : host.provide [] (IntentAware.risksRequest context target) = .ok r₁ :=
    planningHost_first
  have h₂ : ∀ e h, host.provide (e :: h)
      (IntentAware.mutantsRequest context target (parseRisks r₁.raw)) = .ok r₂ :=
    planningHost_second
  obtain ⟨h, hreal⟩ := intentAware_run_planned (answer revs host) hrisks hmutants h₁ h₂
  obtain ⟨h', hdropping⟩ := intentAware_run_planned
    (droppingAnswer revs host (result .failed)) hrisks hmutants h₁ h₂
  rw [run_bind_ok (keepValid_of_fails (droppingAnswer_fails hbad _) h')] at hdropping
  unfold SameValue at hsame
  rw [hdropping] at hsame
  cases hres : ((IntentAware.run context target cfg).run.run (answer revs host) []).1 with
  | error e =>
    rw [hres] at hsame
    cases hsame
  | ok hs =>
    have hreturns := Prog.runs_run (answer revs host) (IntentAware.keepValid
      (IntentAware.plannedMutants context cfg (parseRisks r₁.raw) r₂) >>=
        fun valid => IntentAware.harvestAll context target valid).run h
    rw [← hreal, hres] at hreturns
    obtain ⟨t₁, t₂, valid, ht, hkeep, -⟩ := returns_bind.mp hreturns
    obtain ⟨x, hx⟩ := keepValid_returns_ran hkeep m hm
    obtain ⟨past, hans⟩ := Prog.answer_of_mem_run (ht ▸ List.mem_append_left _ hx)
    exact answer_unmaterialisable hbad x hans.symm

end

/-- A mutant is only dropped, whatever becomes of it, exactly when every mutant that a provider
plans for a target applies to the base. -/
theorem onlyDropped_iff (revs : Revisions) (d : TargetDriver) (ranked : List RankedTarget)
    (replies : Replies) :
    OnlyDropped revs d ranked replies ↔
      ∀ rt ∈ ranked, ∀ m, IntentAware.Planned replies (d.context rt.target) (genTargetOf rt)
        d.runConfig.strategyCfg m → unmaterialisable revs m = false := by
  constructor
  · rintro honly rt hrt m ⟨r₁, r₂, h₁, hrisks, h₂, hm⟩
    by_contra hbad
    rw [Bool.not_eq_false] at hbad
    exact intentAware_aborts hrisks hm hbad (honly.intentAware _ (planningHost_follows h₁ h₂)
      (result .failed) (by decide) rt hrt [])
  · exact onlyDropped_of_materialises

end

def catchConfig : RunConfig := { RunConfig.default with mode := .catch }

/-- The provider always plans a mutant of one path, and every suite passes. -/
def mutatingHost (reply : Text) : Host (Trace (DriveAns Ans)) where
  provide := fun _ _ => .ok ⟨reply⟩
  overlayDir := fun _ _ => .ok "/o"
  execute := fun _ _ _ => .ok (result .passed)

open SandboxExecutor in
/-- One mutant of a path that the base lacks ends the drive of its target, where a failed suite would
have let it return. -/
theorem absent_mutant_ends_drive :
    letI := asciiWords
    letI := noJson
    letI := landedSerde
    letI := hexDigest
    ¬ OnlyDropped ⟨.ofEntries [⟨some "b", .blob []⟩], .ofEntries [⟨some "b", .blob []⟩]⟩
      ⟨["rust"], fun _ => sampleContext, [], catchConfig⟩ [sampleTarget] fun _ _ => True := by
  let _ := asciiWords
  let _ := noJson
  let _ := landedSerde
  let _ := hexDigest
  intro honly
  let revs : Revisions := ⟨.ofEntries [⟨some "b", .blob []⟩], .ofEntries [⟨some "b", .blob []⟩]⟩
  let d : TargetDriver := ⟨["rust"], fun _ => sampleContext, [], catchConfig⟩
  let host := mutatingHost (fence "path: a\n@@")
  let drive := (driveTargets sampleRunId [sampleTarget] [] d.process).run
  have hends : (drive.run (driveEnv freshStore (answer revs host)) []).1.toOption = none := by
    decide +kernel
  have hreturns : (drive.run (driveEnv freshStore
      (droppingAnswer revs host (result .failed))) []).1.toOption.isSome = true := by
    decide +kernel
  have hsame := honly.driveTargets host (fun _ _ _ _ => trivial) (result .failed) (by decide)
    freshStore sampleRunId [] []
  rw [← show _ = _ from hsame, hends] at hreturns
  cases hreturns

end Jitgen
