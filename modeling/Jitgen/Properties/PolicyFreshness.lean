import Jitgen.Orchestrator.Sessions
import Jitgen.Orchestrator.StoreDoubles

/-!
# Freshness of the resumed policy

A run invocation marks its run running before it publishes its trusted configuration. Stopped in
between, it leaves the configuration of an earlier invocation for a resume to find.
-/

namespace Jitgen

open Text

/-- Whether a store operation changed the store, seen from its fault and its answer. -/
def tookEffect {α : Type} (c : Choice RunAns) (a : Except Text α) : Bool :=
  match c.fault with
  | .none => a.isOk
  | .before _ => false
  | .after _ => true

/-- The configuration of a run invocation that marks the run running. -/
def marked (run : RunId) (e : RunEntry Invocation) : Option TrustedConfig :=
  match e.who, e.event with
  | .run opts _, ⟨.store (.setRunStatus r status), a⟩ =>
    if r = run ∧ status = "running" ∧ tookEffect e.choice a then some opts.trusted else none
  | _, _ => none

/-- The contents published as the configuration file of the run. -/
def published (run : RunId) (e : RunEntry Invocation) : Option Bytes :=
  match e.event with
  | ⟨.store (.writeArtifact r rel bytes), a⟩ =>
    if r = run ∧ rel = "config.json" ∧ tookEffect e.choice a then some bytes else none
  | _ => none

/-- The configuration a resume of the run drives under. -/
def resumesUnder (run : RunId) (e : RunEntry Invocation) : Option TrustedConfig :=
  match e.who, e.event with
  | .resume _ _, ⟨.ext (.analyze r _ _ trusted _), _⟩ => if r = run then some trusted else none
  | _, _ => none

/-- The configuration of the run invocation that marked the run running last. -/
def lastMarked (run : RunId) : List (RunEntry Invocation) → Option TrustedConfig
  | [] => none
  | e :: rest => (marked run e).or (lastMarked run rest)

/-- The contents of the configuration file. -/
def storedConfig (run : RunId) : List (RunEntry Invocation) → Option Bytes
  | [] => none
  | e :: rest => (published run e).or (storedConfig run rest)

/-- The configuration marked last, as long as nothing has been published since. -/
def unpublished (run : RunId) : List (RunEntry Invocation) → Option TrustedConfig
  | [] => none
  | e :: rest => (marked run e).or (if (published run e).isSome then none else unpublished run rest)

section

variable [Serde]

/-- A run invocation has marked the run and not published its configuration, and the file is there
with other contents. -/
def Interrupted (run : RunId) (history : List (RunEntry Invocation)) : Prop :=
  ∃ trusted bytes, unpublished run history = some trusted ∧
    storedConfig run history = some bytes ∧ Serde.trustedPretty trusted ≠ .ok bytes

end

/-- Every resume of the run drives under the configuration marked last. -/
def PolicyFresh (run : RunId) : List (RunEntry Invocation) → Prop
  | [] => True
  | e :: rest => (∀ trusted, resumesUnder run e = some trusted → lastMarked run rest = some trusted) ∧
    PolicyFresh run rest

instance (run : RunId) : (history : List (RunEntry Invocation)) →
    Decidable (PolicyFresh run history)
  | [] => isTrue trivial
  | e :: rest =>
    have := instDecidablePolicyFresh run rest
    inferInstanceAs (Decidable ((∀ trusted ∈ resumesUnder run e,
      lastMarked run rest = some trusted) ∧ PolicyFresh run rest))

/-- No resume of the run drives it while a run invocation is interrupted. -/
def NeverInterrupted [Serde] (run : RunId) : List (RunEntry Invocation) → Prop
  | [] => True
  | e :: rest => ((resumesUnder run e).isSome → ¬ Interrupted run rest) ∧ NeverInterrupted run rest

section

variable {run : RunId} {i : Invocation} {w : RunWorld Invocation} {c : Choice RunAns}
  {o : DriveOp RunOp}

private theorem published_write (bytes : Bytes) (a : Except Text Unit) :
    published run ⟨i, c, ⟨.store (.writeArtifact run "config.json" bytes), a⟩⟩ =
      if tookEffect c a then some bytes else none := by
  simp [published]

private theorem marked_running (opts : RunOptions) (injected : Bool) (a : Except Text Unit) :
    marked run ⟨.run opts injected, c, ⟨.store (.setRunStatus run "running"), a⟩⟩ =
      if tookEffect c a then some opts.trusted else none := by
  simp [marked]

private theorem storedConfig_perform
    (hw : (w.state.runs run).files "config.json" = storedConfig run w.history) :
    ((w.perform handle i c o).2.state.runs run).files "config.json" =
      storedConfig run (w.perform handle i c o).2.history := by
  cases o with
  | ext x =>
    rw [World.perform_history, World.perform_state, handle_ext]
    exact hw
  | store o =>
    rw [World.perform_history, World.perform_state]
    by_cases hwrites : ∃ bytes, o = .writeArtifact run "config.json" bytes
    · obtain ⟨bytes, rfl⟩ := hwrites
      rw [storedConfig, published_write, ← hw]
      cases hf : c.fault <;>
        simp [handle, hf, tookEffect, Store.apply, Store.updateRun, RunDir.setFile, Except.isOk,
          Except.toBool]
    · have hnone : ∀ a, published run ⟨i, c, ⟨.store o, a⟩⟩ = none := by
        intro a
        unfold published
        split
        · rename_i r rel bytes _ heq
          cases heq
          exact if_neg fun h => hwrites ⟨bytes, by rw [h.1, h.2.1]⟩
        · rfl
      have hfile : ((handle c (.store o) w.state).2.runs run).files "config.json" =
          (w.state.runs run).files "config.json" := by
        rcases handle_state c o w.state with hs | hs <;> rw [hs]
        rcases w.state.apply_files o run "config.json" with hsame | ⟨bytes, ho, -⟩
        · exact hsame
        · exact absurd ⟨bytes, ho⟩ hwrites
      rw [hfile, hw, storedConfig, hnone, Option.none_or]

/-- An operation that neither marks the run, nor publishes its configuration, nor resumes it. -/
def Neutral (run : RunId) (i : Invocation) (o : DriveOp RunOp) : Prop :=
  ∀ c a, marked run ⟨i, c, ⟨o, a⟩⟩ = none ∧ published run ⟨i, c, ⟨o, a⟩⟩ = none ∧
    resumesUnder run ⟨i, c, ⟨o, a⟩⟩ = none

private theorem neutral_of
    (hmark : ∀ status opts injected, o = .store (.setRunStatus run status) →
      i = .run opts injected → status ≠ "running")
    (hwrite : ∀ bytes, o ≠ .store (.writeArtifact run "config.json" bytes))
    (hresume : ∀ base head trusted injected stateRoot id,
      o = .ext (.analyze run base head trusted injected) → i ≠ .resume stateRoot id) :
    Neutral run i o := by
  intro c a
  refine ⟨?_, ?_, ?_⟩
  · cases o with
    | ext x => cases i <;> rfl
    | store o =>
      cases o with
      | setRunStatus r status =>
        cases i with
        | run opts injected =>
          exact if_neg fun h => hmark status opts injected (by rw [h.1]) rfl h.2.1
        | resume stateRoot id => rfl
      | _ => cases i <;> rfl
  · cases o with
    | ext x => rfl
    | store o =>
      cases o with
      | writeArtifact r rel bytes => exact if_neg fun h => hwrite bytes (by rw [h.1, h.2.1])
      | _ => rfl
  · cases o with
    | store o => cases i <;> rfl
    | ext x =>
      cases x with
      | analyze r base head trusted injected =>
        cases i with
        | run opts injected => rfl
        | resume stateRoot id => exact if_neg fun h => hresume _ _ _ _ _ _ (by rw [h]) rfl
      | _ => cases i <;> rfl

private theorem neutral_of_about {r : RunId} (hr : r ≠ run) (ho : About r o) : Neutral run i o := by
  refine neutral_of ?_ ?_ ?_
  · rintro status opts injected rfl
    exact absurd (ho run rfl).symm hr
  · rintro bytes rfl
    exact hr (ho run rfl).symm
  · rintro base head trusted injected stateRoot id rfl
    exact absurd (ho run rfl).symm hr

private theorem neutral_of_step {r : RunId} {rels : Text → Prop} (hrels : ¬ rels "config.json")
    (ho : StepOp r rels o) : Neutral run i o := by
  refine neutral_of ?_ ?_ ?_
  · rintro status opts injected rfl
    cases ho
  · rintro bytes rfl
    exact hrels ho.2
  · rintro base head trusted injected stateRoot id rfl
    cases ho

private theorem neutral_of_reopen {r : RunId} (ho : ReopenOp r o) : Neutral run i o := by
  rcases ho with rfl | rfl <;> exact neutral_of (by simp) (by simp) (by simp)

private theorem neutral_of_open {info : RunMeta} (ho : OpenOp info o) : Neutral run i o := by
  rcases ho with rfl | ho
  · exact neutral_of (by simp) (by simp) (by simp)
  · exact neutral_of_reopen ho

private theorem neutral_setRunStatus {r : RunId} {status : Text} (h : status ≠ "running") :
    Neutral run i (.store (.setRunStatus r status)) := by
  refine neutral_of ?_ (by simp) (by simp)
  rintro _ opts injected ⟨⟩ -
  exact h

private theorem neutral_resume {r : RunId} {status stateRoot : Text} {id : RunId} :
    Neutral run (.resume stateRoot id) (.store (.setRunStatus r status)) :=
  neutral_of (by simp) (by simp) (by simp)

private theorem driveArtifact_ne_config {rel : Text}
    (h : IsTargetArtifact rel ∨ rel = "report.json") :
    rel ≠ "config.json" := by
  rcases h with ⟨id, rfl⟩ | rfl
  · intro heq
    have hhead : some 't' = some 'c' := congrArg List.head? heq
    exact absurd hhead (by decide)
  · decide

private theorem neutral_of_drive {r : RunId} {opts : RunOptions} {injected : Bool}
    (ho : DriveRunOp r o) : Neutral run (.run opts injected) o := by
  rcases ho with ho | ⟨_, _, _, _, rfl⟩ | ⟨_, rfl⟩
  · exact neutral_of_step (fun h => driveArtifact_ne_config h rfl) ho
  · exact neutral_of (by simp) (by simp) (by simp)
  · exact neutral_of (by simp) (by simp) (by simp)

private theorem lastMarked_neutral (ho : Neutral run i o) :
    lastMarked run (w.perform handle i c o).2.history = lastMarked run w.history := by
  rw [World.perform_history, lastMarked, (ho c _).1, Option.none_or]

private theorem storedConfig_neutral (ho : Neutral run i o) :
    storedConfig run (w.perform handle i c o).2.history = storedConfig run w.history := by
  rw [World.perform_history, storedConfig, (ho c _).2.1, Option.none_or]

variable [Serde]

/-- A resume drives under the configuration marked last exactly when none is interrupted. -/
def Judged (run : RunId) : List (RunEntry Invocation) → Prop
  | [] => True
  | e :: rest => (∀ trusted, resumesUnder run e = some trusted →
      (lastMarked run rest = some trusted ↔ ¬ Interrupted run rest)) ∧ Judged run rest

private theorem policyFresh_iff {history : List (RunEntry Invocation)} (h : Judged run history) :
    PolicyFresh run history ↔ NeverInterrupted run history := by
  induction history with
  | nil => exact Iff.rfl
  | cons e rest ih =>
    refine and_congr ?_ (ih h.2)
    cases he : resumesUnder run e with
    | none => simp
    | some trusted =>
      have hiff := h.1 trusted he
      simpa using hiff

/-- What marking and publishing leave behind at any moment. -/
structure PolicyInv (run : RunId) (w : RunWorld Invocation) : Prop where
  file : (w.state.runs run).files "config.json" = storedConfig run w.history
  settled : unpublished run w.history = none → storedConfig run w.history = none ∨
    ∃ trusted bytes, lastMarked run w.history = some trusted ∧
      Serde.trustedPretty trusted = .ok bytes ∧ storedConfig run w.history = some bytes
  pending : ∀ trusted, unpublished run w.history = some trusted →
    lastMarked run w.history = some trusted
  stored : ∀ bytes, storedConfig run w.history = some bytes →
    ∃ trusted, Serde.trustedPretty trusted = .ok bytes
  judged : Judged run w.history

private theorem policyInv_start : PolicyInv run ⟨.empty, []⟩ where
  file := rfl
  settled _ := .inl rfl
  pending _ h := nomatch h
  stored _ h := nomatch h
  judged := trivial

/-- An operation that marks, publishes and resumes nothing. -/
private theorem policyInv_quiet {e : RunEntry Invocation}
    (he : (w.perform handle i c o).2.history = e :: w.history) (hmarked : marked run e = none)
    (hpublished : published run e = none) (hresumes : resumesUnder run e = none)
    (hw : PolicyInv run w) : PolicyInv run (w.perform handle i c o).2 := by
  have hlast : lastMarked run (e :: w.history) = lastMarked run w.history := by
    rw [lastMarked, hmarked, Option.none_or]
  have hstored : storedConfig run (e :: w.history) = storedConfig run w.history := by
    rw [storedConfig, hpublished, Option.none_or]
  have hunpub : unpublished run (e :: w.history) = unpublished run w.history := by
    rw [unpublished, hmarked, hpublished]
    rfl
  refine ⟨storedConfig_perform hw.file, ?_, ?_, ?_, ?_⟩
  · rw [he, hunpub, hstored, hlast]
    exact hw.settled
  · rw [he, hunpub, hlast]
    exact hw.pending
  · rw [he, hstored]
    exact hw.stored
  · rw [he]
    refine ⟨fun trusted h => ?_, hw.judged⟩
    rw [hresumes] at h
    cases h

private theorem policyInv_neutral (ho : Neutral run i o) (hw : PolicyInv run w) :
    PolicyInv run (w.perform handle i c o).2 :=
  policyInv_quiet rfl (ho c _).1 (ho c _).2.1 (ho c _).2.2 hw

private theorem policyInv_mark (opts : RunOptions) (injected : Bool) (hw : PolicyInv run w) :
    PolicyInv run (w.perform handle (.run opts injected) c
      (.store (.setRunStatus run "running"))).2 := by
  obtain ⟨a, ha⟩ : ∃ a, (handle c (.store (.setRunStatus run "running")) w.state).1 = a := ⟨_, rfl⟩
  have he : (w.perform handle (.run opts injected) c
      (.store (.setRunStatus run "running"))).2.history =
      ⟨.run opts injected, c, ⟨.store (.setRunStatus run "running"), a⟩⟩ :: w.history := by
    rw [World.perform_history, ha]
  have hmarked : marked run _ = _ := marked_running (c := c) opts injected a
  by_cases heffect : tookEffect c a = true
  · rw [if_pos heffect] at hmarked
    refine ⟨storedConfig_perform hw.file, fun h => ?_, fun trusted h => ?_, ?_, ?_⟩
    · rw [he, unpublished, hmarked, Option.some_or] at h
      cases h
    · rw [he, unpublished, hmarked, Option.some_or] at h
      rw [he, lastMarked, hmarked, Option.some_or, h]
    · exact hw.stored
    · exact ⟨fun trusted h => (by cases h), hw.judged⟩
  · rw [if_neg heffect] at hmarked
    exact policyInv_quiet he hmarked rfl rfl hw

/-- Publishing the configuration that was marked last. -/
private theorem policyInv_publish {trusted : TrustedConfig} {bytes : Bytes}
    (hbytes : Serde.trustedPretty trusted = .ok bytes)
    (hlast : lastMarked run w.history = some trusted) (hw : PolicyInv run w) :
    PolicyInv run (w.perform handle i c
      (.store (.writeArtifact run "config.json" bytes))).2 := by
  obtain ⟨a, ha⟩ : ∃ a, (handle c (.store (.writeArtifact run "config.json" bytes)) w.state).1 = a :=
    ⟨_, rfl⟩
  have he : (w.perform handle i c (.store (.writeArtifact run "config.json" bytes))).2.history =
      ⟨i, c, ⟨.store (.writeArtifact run "config.json" bytes), a⟩⟩ :: w.history := by
    rw [World.perform_history, ha]
  have hmarked : marked run ⟨i, c, ⟨.store (.writeArtifact run "config.json" bytes), a⟩⟩ = none := by
    cases i <;> rfl
  have hresumes :
      resumesUnder run ⟨i, c, ⟨.store (.writeArtifact run "config.json" bytes), a⟩⟩ = none := by
    cases i <;> rfl
  have hpublished : published run _ = _ := published_write (i := i) (c := c) bytes a
  by_cases heffect : tookEffect c a = true
  · rw [if_pos heffect] at hpublished
    refine ⟨storedConfig_perform hw.file, fun _ => .inr ⟨trusted, bytes, ?_, hbytes, ?_⟩,
      fun t h => ?_, fun b h => ?_, ?_⟩
    · rw [he, lastMarked, hmarked, Option.none_or, hlast]
    · rw [he, storedConfig, hpublished, Option.some_or]
    · rw [he, unpublished, hmarked, hpublished] at h
      cases h
    · rw [he, storedConfig, hpublished, Option.some_or] at h
      cases h
      exact ⟨trusted, hbytes⟩
    · rw [he]
      refine ⟨fun t h => ?_, hw.judged⟩
      rw [hresumes] at h
      cases h
  · rw [if_neg heffect] at hpublished
    exact policyInv_quiet he hmarked hpublished hresumes hw

/-- A resume drives under the configuration on file, which is the one marked last unless that one
was not published. -/
private theorem lastMarked_iff {trusted : TrustedConfig} {bytes : Bytes}
    (hround : ∀ t b, Serde.trustedPretty t = .ok b → Serde.parseTrusted b = .ok t)
    (hstored : storedConfig run w.history = some bytes)
    (hparse : Serde.parseTrusted bytes = .ok trusted) (hw : PolicyInv run w) :
    lastMarked run w.history = some trusted ↔ ¬ Interrupted run w.history := by
  have hparsed : ∀ {t}, Serde.trustedPretty t = .ok bytes → t = trusted := by
    intro t ht
    rw [hround t bytes ht] at hparse
    exact Except.ok.inj hparse
  cases hunpub : unpublished run w.history with
  | none =>
    have hnot : ¬ Interrupted run w.history := by
      rintro ⟨t, b, h, -⟩
      rw [hunpub] at h
      cases h
    refine iff_of_true ?_ hnot
    rcases hw.settled hunpub with hnone | ⟨t, b, hlast, hpretty, hb⟩
    · rw [hstored] at hnone
      cases hnone
    · rw [hstored] at hb
      cases hb
      rw [hlast, hparsed hpretty]
  | some t =>
    have hlast := hw.pending t hunpub
    constructor
    · rintro htrusted ⟨t', b, ht', hb, hne⟩
      rw [hunpub] at ht'
      cases ht'
      rw [hstored] at hb
      cases hb
      rw [hlast] at htrusted
      cases htrusted
      obtain ⟨t', hpretty⟩ := hw.stored bytes hstored
      exact hne (hparsed hpretty ▸ hpretty)
    · intro hnot
      have hpretty : Serde.trustedPretty t = .ok bytes := by
        by_contra hne
        exact hnot ⟨t, bytes, hunpub, hstored, hne⟩
      rw [hlast, hparsed hpretty]

private theorem policyInv_resume {trusted : TrustedConfig} {bytes : Bytes}
    {stateRoot base head : Text} {id : RunId} {injected : Bool}
    (hround : ∀ t b, Serde.trustedPretty t = .ok b → Serde.parseTrusted b = .ok t)
    (hstored : storedConfig run w.history = some bytes)
    (hparse : Serde.parseTrusted bytes = .ok trusted) (hw : PolicyInv run w) :
    PolicyInv run (w.perform handle (.resume stateRoot id) c
      (.ext (.analyze run base head trusted injected))).2 := by
  refine ⟨storedConfig_perform hw.file, hw.settled, hw.pending, hw.stored, fun t h => ?_, hw.judged⟩
  have hresumes : some trusted = some t := (if_pos rfl).symm.trans h
  cases hresumes
  exact lastMarked_iff hround hstored hparse hw

private theorem safe_neutral {α : Type} {p : RunProg α} (hp : p.Uses (Neutral run i))
    (hw : PolicyInv run w) :
    p.Safe handle i (.keeping (PolicyInv run)) (fun _ => PolicyInv run) w :=
  Fallible.keeps_of_uses hp (fun _ ho _ _ => policyInv_neutral ho)
    (fun _ ho _ _ => policyInv_neutral ho) hw

/-- The configuration marked last, while it is being published. -/
def MarkedAs (run : RunId) (trusted : TrustedConfig) (w : RunWorld Invocation) : Prop :=
  PolicyInv run w ∧ lastMarked run w.history = some trusted

private theorem safe_marked {α : Type} {p : RunProg α} {trusted : TrustedConfig}
    (hp : p.Uses (Neutral run i)) (hw : MarkedAs run trusted w) :
    p.Safe handle i (.keeping (PolicyInv run)) (fun _ => MarkedAs run trusted) w :=
  Fallible.keeps_of_uses hp (fun _ ho _ _ => policyInv_neutral ho)
    (fun _ ho _ _ hw => ⟨policyInv_neutral ho hw.1, (lastMarked_neutral ho).trans hw.2⟩) hw

private theorem safe_setRunning {opts : RunOptions} {injected : Bool} (hw : PolicyInv run w) :
    (RunStore.setRunStatus run "running" : RunProg Unit).Safe handle (.run opts injected)
      (.keeping (PolicyInv run)) (fun _ => MarkedAs run opts.trusted) w := by
  refine Fallible.keeps_attempt (fun c _ => policyInv_mark opts injected hw) ?_
  intro c a ha
  refine ⟨policyInv_mark opts injected hw, ?_⟩
  have hok : (handle c (.store (.setRunStatus run "running")) w.state).1 = .ok a := ha
  have heffect : tookEffect c (handle c (.store (.setRunStatus run "running")) w.state).1 =
      true := by
    rw [hok]
    unfold tookEffect
    cases hf : c.fault with
    | none => rfl
    | before e => simp [handle, hf] at hok
    | after e => rfl
  have hmarked : marked run _ = _ := marked_running (c := c) opts injected
    (handle c (.store (.setRunStatus run "running")) w.state).1
  rw [World.perform_history, lastMarked, hmarked, if_pos heffect, Option.some_or]

private theorem safe_storeTrusted [Digest] {trusted : TrustedConfig} (hw : MarkedAs run trusted w) :
    (persistTrusted run trusted).Safe handle i (.keeping (PolicyInv run))
      (fun _ => PolicyInv run) w := by
  refine Fallible.safe_bind (Fallible.keeps_ofExcept (P := fun bytes w =>
    Serde.trustedPretty trusted = .ok bytes ∧ MarkedAs run trusted w)
    fun bytes hbytes => ⟨serdeResult_ok.mp hbytes, hw⟩) ?_
  rintro bytes w ⟨hbytes, hw⟩
  have hstore : ∀ {o : StoreOp}, StepOp run (fun _ => False) (.store o) →
      (stateOp o : RunProg o.Res).Uses (Neutral run i) :=
    fun ho => uses_stateOp (neutral_of_step not_false ho)
  refine Fallible.safe_bind (safe_marked (hstore rfl) hw) fun _ w hw => ?_
  refine Fallible.safe_bind (safe_marked (hstore rfl) hw) fun _ w hw => ?_
  refine Fallible.safe_bind (R := fun _ w => PolicyInv run w) ?_ fun _ w hw =>
    safe_neutral (hstore rfl) hw
  have hjoin : (RunHandle.safeJoin "config.json" : RunProg Unit) = pure () := by
    unfold RunHandle.safeJoin
    rw [show UnixPath.components "config.json" = [.normal "config.json"] by decide]
    rfl
  unfold RunHandle.publishArtifact
  rw [hjoin]
  refine Fallible.safe_bind (R := fun _ w => MarkedAs run trusted w)
    (Fallible.keeps_pure hw) fun _ w hw => ?_
  refine Fallible.safe_bind (Fallible.keeps_attempt (P := fun _ w => PolicyInv run w)
    (fun c _ => policyInv_publish hbytes hw.2 hw.1)
    fun c a _ => policyInv_publish hbytes hw.2 hw.1) fun _ w hw => ?_
  refine Fallible.safe_bind (safe_neutral (hstore rfl) hw) fun _ w hw => ?_
  exact Fallible.keeps_pure hw

/-- The configuration a resume reads is the one on file. -/
def Loaded (run : RunId) (trusted : TrustedConfig) (w : RunWorld Invocation) : Prop :=
  PolicyInv run w ∧ ∃ bytes, storedConfig run w.history = some bytes ∧
    Serde.parseTrusted bytes = .ok trusted

private theorem safe_loaded {α : Type} {p : RunProg α} {trusted : TrustedConfig}
    (hp : p.Uses (Neutral run i)) (hw : Loaded run trusted w) :
    p.Safe handle i (.keeping (PolicyInv run)) (fun _ => Loaded run trusted) w := by
  refine Fallible.keeps_of_uses hp (fun _ ho _ _ => policyInv_neutral ho) ?_ hw
  rintro o ho w c ⟨hw, bytes, hstored, hparse⟩
  exact ⟨policyInv_neutral ho hw, bytes, (storedConfig_neutral ho).trans hstored, hparse⟩

private theorem safe_loadTrusted (hw : PolicyInv run w) :
    (loadTrusted run).Safe handle i (.keeping (PolicyInv run)) (fun t => Loaded run t) w := by
  have hneutral : Neutral run i (.store (.readArtifact run "config.json")) :=
    neutral_of (by simp) (by simp) (by simp)
  have hread : (readRunArtifact run "config.json" : RunProg (Option Bytes)).Safe handle i
      (.keeping (PolicyInv run)) (fun r w => PolicyInv run w ∧ storedConfig run w.history = r) w := by
    unfold readRunArtifact
    rw [if_neg (by rw [show rejectUnsafeRel "config.json" = false by decide]; exact Bool.false_ne_true)]
    refine Fallible.keeps_attempt (fun c _ => policyInv_neutral hneutral hw) fun c r hr => ?_
    refine ⟨policyInv_neutral hneutral hw, ?_⟩
    have hok : handle c (.store (.readArtifact run "config.json")) w.state =
        w.state.apply (.readArtifact run "config.json") := handle_ok hr
    have hret : (handle c (.store (.readArtifact run "config.json")) w.state).1 = .ok r := hr
    rw [hok] at hret
    rw [storedConfig_neutral hneutral, ← hw.file]
    exact Except.ok.inj hret
  refine Fallible.safe_bind hread ?_
  rintro (_ | bytes) w ⟨hw, hstored⟩
  · exact Fallible.safe_throw
  · exact Fallible.keeps_ofExcept fun trusted hparse =>
      ⟨hw, bytes, hstored, serdeResult_ok.mp hparse⟩

variable [Digest] [WordChars]

omit [Digest] [WordChars] in
private theorem safe_neutral_any {α : Type} {p : RunProg α} (hp : p.Uses (Neutral run i))
    (hw : PolicyInv run w) : p.Safe handle i (.keeping (PolicyInv run)) (fun _ _ => True) w :=
  (safe_neutral hp hw).mono fun _ _ _ => trivial

private theorem policy_runJitGeneration (opts : RunOptions) (injected : Bool)
    (hw : PolicyInv run w) :
    (runJitGeneration opts injected).Safe handle (.run opts injected) (.keeping (PolicyInv run))
      (fun _ _ => True) w := by
  have houtside : ∀ {x : RunOp}, subject (.ext x) = none →
      Neutral run (.run opts injected) (.ext x) := by
    intro x hx
    refine neutral_of (by simp) (by simp) ?_
    rintro base head trusted inj stateRoot id heq
    cases heq
    cases hx
  refine Fallible.safe_bind (safe_neutral (Fallible.uses_attempt (houtside rfl)) hw)
    fun opened w hw => ?_
  refine Fallible.safe_bind (safe_neutral (Fallible.uses_attempt (houtside rfl)) hw)
    fun _ w hw => ?_
  refine Fallible.safe_bind (safe_neutral (Fallible.uses_attempt (houtside rfl)) hw)
    fun _ w hw => ?_
  dsimp only
  by_cases hrun : deriveRunId opened.repoAbs opened.base opened.head opts.trusted.mode = run
  · rw [hrun]
    refine Fallible.safe_bind (safe_neutral ((uses_createRun _).mono fun _ => neutral_of_open) hw)
      fun _ w hw => ?_
    refine Fallible.safe_bind (safe_setRunning hw) fun _ w hw => ?_
    refine Fallible.safe_bind (safe_storeTrusted hw) fun _ w hw => ?_
    refine safe_neutral_any ?_ hw
    refine Fallible.uses_bind ((uses_driveRun _ _ _ _).mono fun _ => neutral_of_drive) fun report => ?_
    exact Fallible.uses_bind (uses_stateOp (neutral_setRunStatus (by decide))) fun _ =>
      Fallible.uses_pure _
  · refine safe_neutral_any ((uses_runJitGeneration _ _ _ _ _).mono fun o ho => ?_) hw
    exact neutral_of_about hrun ho

variable (hround : ∀ t b, Serde.trustedPretty t = .ok b → Serde.parseTrusted b = .ok t)
include hround

private theorem safe_driveResumed {trusted : TrustedConfig} {bytes : Bytes} {stateRoot : Text}
    {id : RunId} (hstored : storedConfig run w.history = some bytes)
    (hparse : Serde.parseTrusted bytes = .ok trusted) (hw : PolicyInv run w) (base head : Text) :
    (driveRun run base head trusted false).Safe handle (.resume stateRoot id)
      (.keeping (PolicyInv run)) (fun _ => PolicyInv run) w := by
  refine Fallible.safe_bind (Fallible.keeps_attempt (P := fun _ w => PolicyInv run w)
    (fun c _ => policyInv_resume hround hstored hparse hw)
    fun c _ _ => policyInv_resume hround hstored hparse hw) fun analysis w hw => ?_
  refine safe_neutral ?_ hw
  refine Fallible.uses_bind ((uses_driveTargets _ _ _).mono fun _ =>
    neutral_of_step fun h => driveArtifact_ne_config (.inl h) rfl) fun outcomes => ?_
  dsimp only
  refine Fallible.uses_bind (Fallible.uses_attempt (neutral_of (by simp) (by simp) (by simp)))
    fun _ => ?_
  refine Fallible.uses_bind ((uses_persistReport _).mono fun _ =>
    neutral_of_step fun h => driveArtifact_ne_config (.inr h) rfl) fun _ => ?_
  exact Fallible.uses_pure _

private theorem policy_resumeRun (stateRoot : Text) (id : RunId) (hw : PolicyInv run w) :
    (resumeRun stateRoot id).Safe handle (.resume stateRoot id) (.keeping (PolicyInv run))
      (fun _ _ => True) w := by
  by_cases hrun : id = run
  · subst hrun
    have houtside : ∀ {x : RunOp}, subject (.ext x) = none →
        Neutral id (.resume stateRoot id) (.ext x) := by
      intro x hx
      refine neutral_of (by simp) (by simp) ?_
      rintro base head trusted inj _ _ heq
      cases heq
      cases hx
    refine Fallible.safe_bind (safe_neutral (Fallible.uses_attempt (houtside rfl)) hw)
      fun _ w hw => ?_
    refine Fallible.safe_bind (safe_neutral (uses_requireRun.mono fun _ ho =>
      neutral_of_reopen (.inl ho)) hw) fun info w hw => ?_
    refine Fallible.safe_bind (safe_neutral (Fallible.uses_attempt (houtside rfl)) hw)
      fun _ w hw => ?_
    refine Fallible.safe_bind (safe_neutral (Fallible.uses_attempt (houtside rfl)) hw)
      fun revs w hw => ?_
    refine Fallible.safe_bind (safe_neutral (uses_openRun.mono fun _ => neutral_of_reopen) hw)
      fun _ w hw => ?_
    refine Fallible.safe_bind (safe_loadTrusted hw) fun trusted w hw => ?_
    refine Fallible.safe_bind (safe_loaded (uses_stateOp neutral_resume) hw) ?_
    rintro _ w ⟨hw, bytes, hstored, hparse⟩
    refine Fallible.safe_bind (safe_driveResumed hround hstored hparse hw _ _) fun _ w hw => ?_
    refine safe_neutral_any ?_ hw
    exact Fallible.uses_bind (uses_stateOp neutral_resume) fun _ => Fallible.uses_pure _
  · exact safe_neutral_any ((uses_resumeRun stateRoot).mono fun _ => neutral_of_about hrun) hw

theorem Session.policy (hw : Session w) : PolicyInv run w := by
  refine hw.invariant (I := PolicyInv run) policyInv_start fun inv w hw => ?_
  cases inv with
  | run opts injected => exact policy_runJitGeneration opts injected hw
  | resume stateRoot id => exact policy_resumeRun hround stateRoot id hw

/-- The resumes of a session drive under the configuration marked last if and only if none of them
finds a run invocation interrupted. -/
theorem resumeRun_policy_fresh_iff (hw : Session w) :
    PolicyFresh run w.history ↔ NeverInterrupted run w.history :=
  policyFresh_iff (hw.policy hround).judged

end

def looseRun : Invocation := .run { sampleOptions with trusted := looseConfig } false

def strictRun : Invocation := .run sampleOptions false

def sampleResume : Invocation := .resume "/s" sampleRunId

/-- A run completes under the loose configuration, a run under the strict one crashes after `n`
operations, and a resume completes it. -/
def strictRerun (n : Nat) : RunWorld Invocation :=
  letI := sampleSerde
  letI := hexDigest
  letI := asciiWords
  let w := (looseRun.program.run.runAll handle looseRun steadyChoice ⟨.empty, []⟩).2
  let w := (strictRun.program.run.runFor handle strictRun (List.replicate n steadyChoice) w).2
  (sampleResume.program.run.runAll handle sampleResume steadyChoice w).2

private theorem session_strictRerun (n : Nat) :
    letI := sampleSerde
    letI := hexDigest
    letI := asciiWords
    Session (strictRerun n) :=
  letI := sampleSerde
  letI := hexDigest
  letI := asciiWords
  .invoke _ (.invoke _ (.invoke _ .start (Prog.reaches_runAll _ _ _))
    (Prog.reaches_runFor _ _ _)) (Prog.reaches_runAll _ _ _)

/-- Stopped after it has published its configuration, the strict run is resumed as it is. -/
theorem strictRerun_published :
    letI := sampleSerde
    PolicyFresh sampleRunId (strictRerun 12).history ∧
      NeverInterrupted sampleRunId (strictRerun 12).history := by
  let _ := sampleSerde
  let _ := hexDigest
  let _ := asciiWords
  have hfresh : PolicyFresh sampleRunId (strictRerun 12).history := by decide +kernel
  refine ⟨hfresh, (resumeRun_policy_fresh_iff ?_ (session_strictRerun 12)).mp hfresh⟩
  exact fun t b h => decodeAmong_encodeAmong (by decide) h

/-- Stopped right after it has marked the run, the strict run is resumed under the loose
configuration. -/
theorem strictRerun_unpublished :
    letI := sampleSerde
    letI := hexDigest
    letI := asciiWords
    Session (strictRerun 8) ∧ lastMarked sampleRunId (strictRerun 8).history = some .default ∧
      (strictRerun 8).history.findSome? (resumesUnder sampleRunId) = some looseConfig ∧
      ¬ PolicyFresh sampleRunId (strictRerun 8).history :=
  ⟨session_strictRerun 8, by decide +kernel, by decide +kernel, by decide +kernel⟩

end Jitgen
