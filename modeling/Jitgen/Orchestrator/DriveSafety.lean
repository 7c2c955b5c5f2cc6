import Jitgen.Orchestrator.Checkpoint
import Mathlib.Data.List.Forall2

/-!
# Safety of a driving process

A process works on a step from recording it until it has finished it, restored it, or failed. While
it does, it relies on the recorded hash. Every step of `drive_targets` keeps the contract, and what
it returns was computed for inputs that hash like the current ones.
-/

namespace Jitgen

open Text

variable {ι : Type} [DecidableEq ι]

/-- How an event of a process changes the step it works on. -/
def nextWork (event : Event (DriveAns RunAns)) (current : Option (Text × Text)) :
    Option (Text × Text) :=
  match event with
  | ⟨.store (.recordStep _ step _ _ inputHash), .ok _⟩ => some (step, inputHash)
  | ⟨.store (.readArtifact _ _), .ok (some _)⟩ => none
  | ⟨.store (.finishStep _ _ _ _), _⟩ => none
  | ⟨.store _, .error _⟩ => none
  | ⟨.ext (.process _ _ _), .error _⟩ => none
  | _ => current

/-- The step a process works on, with the input hash it recorded. -/
def workingOn (i : ι) : List (RunEntry ι) → Option (Text × Text)
  | [] => none
  | e :: rest => if e.who = i then nextWork e.event (workingOn i rest) else workingOn i rest

private theorem workingOn_perform_self (i : ι) (c : Choice RunAns) (o : DriveOp RunOp)
    (w : RunWorld ι) :
    workingOn i (w.perform handle i c o).2.history =
      nextWork ⟨o, (handle c o w.state).1⟩ (workingOn i w.history) :=
  if_pos rfl

theorem workingOn_perform_other {i j : ι} (h : j ≠ i) (c : Choice RunAns) (o : DriveOp RunOp)
    (w : RunWorld ι) :
    workingOn j (w.perform handle i c o).2.history = workingOn j w.history :=
  if_neg h.symm

/-- An operation that records no other inputs for the step. -/
def KeepsHash (o : DriveOp RunOp) (id h : Text) : Prop :=
  ∀ run seq kind h', o = .store (.recordStep run (targetStepId id) seq kind h') → h' = h

section

variable [Serde] [Digest]

/-- Checkpoints of a run before and after. -/
def RunAdvances (run : RunId) (keeps : Text → Text → Prop) (w w' : RunWorld ι) : Prop :=
  Advances keeps (computed w.history) (computed w'.history) (w.state.runs run) (w'.state.runs run)

def driveContract (run : RunId) (i : ι) : Contract ι (DriveAns RunAns) (Choice RunAns) Store where
  rely w w' := RunAdvances run (fun id h => workingOn i w.history = some (targetStepId id, h)) w w' ∧
    workingOn i w'.history = workingOn i w.history
  guarantee o w w' := RunAdvances run (KeepsHash o) w w' ∧
    ∀ j, j ≠ i → workingOn j w'.history = workingOn j w.history
  rely_refl w := ⟨advances_same (List.Subset.refl _) rfl rfl, rfl⟩
  rely_trans h₁ h₂ := by
    refine ⟨h₁.1.trans ?_, h₂.2.trans h₁.2⟩
    have h := h₂.1
    unfold RunAdvances at h
    rwa [h₁.2] at h

/-- The process works on the step of `id`, and `h` is still the recorded hash. -/
structure Working (run : RunId) (i : ι) (w : RunWorld ι) (id h : Text) : Prop where
  work : workingOn i w.history = some (targetStepId id, h)
  hash : hashAt (w.state.runs run) id = some h
  intact : Intact (computed w.history) (w.state.runs run)

/-- Whatever was computed for the target under the fingerprint; the checkpoints are intact. -/
def Returned (run : RunId) (configFp : Text) (rt : RankedTarget) (o : TargetOutcome)
    (w : RunWorld ι) : Prop :=
  Intact (computed w.history) (w.state.runs run) ∧ OutcomeFor (computed w.history) rt configFp o

variable {run : RunId} {i : ι} {w w' : RunWorld ι} {id h configFp : Text} {rt : RankedTarget}
  {c : Choice RunAns}

theorem Working.rely (hw : Working run i w id h) (hr : (driveContract run i).rely w w') :
    Working run i w' id h where
  work := hr.2.trans hw.work
  hash := hr.1.hash id h hw.work hw.hash
  intact := hr.1.intact hw.intact

private theorem Working.artifact_rely (hw : Working run i w id h)
    (ha : ArtifactUnder (computed w.history) (w.state.runs run) id h)
    (hr : (driveContract run i).rely w w') :
    ArtifactUnder (computed w'.history) (w'.state.runs run) id h :=
  hr.1.artifact id h hw.work hw.hash ha

private theorem intact_rely (hr : (driveContract run i).rely w w')
    (hint : Intact (computed w.history) (w.state.runs run)) :
    Intact (computed w'.history) (w'.state.runs run) :=
  hr.1.intact hint

private theorem guarantee_store {o : StoreOp}
    (h : Advances (KeepsHash (.store o)) (computed w.history) (computed w.history)
      (w.state.runs run) ((w.state.apply o).2.runs run)) :
    (driveContract run i).guarantee (.store o) w (w.perform handle i c (.store o)).2 := by
  refine ⟨?_, fun j hj => workingOn_perform_other hj c _ w⟩
  unfold RunAdvances
  simp only [World.perform_history, computed_store, World.perform_state]
  rcases handle_state c o w.state with hs | hs
  · rw [hs]
    exact advances_same (List.Subset.refl _) rfl rfl
  · rw [hs]
    exact h

private theorem guarantee_ext (x : RunOp) :
    (driveContract run i).guarantee (.ext x) w (w.perform handle i c (.ext x)).2 :=
  ⟨advances_same (computed_subset_cons _ _) rfl rfl,
    fun _ hj => workingOn_perform_other hj c _ w⟩

theorem Working.step {o : DriveOp RunOp} (hw : Working run i w id h)
    (hg : (driveContract run i).guarantee o w (w.perform handle i c o).2) (hk : KeepsHash o id h)
    (hn : nextWork ⟨o, (handle c o w.state).1⟩ (workingOn i w.history) = workingOn i w.history) :
    Working run i (w.perform handle i c o).2 id h where
  work := by rw [workingOn_perform_self, hn, hw.work]
  hash := hg.1.hash id h hk hw.hash
  intact := hg.1.intact hw.intact

private theorem safe_stateOp {o : StoreOp} {P : o.Res → RunWorld ι → Prop}
    (hstable : ∀ a w w', (driveContract run i).rely w w' → P a w → P a w')
    (hstep : ∀ w', (driveContract run i).rely w w' →
      Advances (KeepsHash (.store o)) (computed w'.history) (computed w'.history)
        (w'.state.runs run) ((w'.state.apply o).2.runs run))
    (hret : ∀ w' c a, (driveContract run i).rely w w' →
      (driveContract run i).guarantee (.store o) w' (w'.perform handle i c (.store o)).2 →
      handle c (.store o) w'.state = w'.state.apply o → (w'.state.apply o).1 = .ok a →
      P a (w'.perform handle i c (.store o)).2) :
    (stateOp o).Safe handle i (driveContract run i) P w := by
  refine Fallible.safe_attempt fun w' hw c => ?_
  have hg : (driveContract run i).guarantee (.store o) w' (w'.perform handle i c (.store o)).2 :=
    guarantee_store (hstep w' hw)
  refine ⟨hg, fun a ha w'' hw' => hstable a _ _ hw' ?_⟩
  have hok : handle c (.store o) w'.state = w'.state.apply o := handle_ok ha
  have hval : (w'.state.apply o).1 = .ok a := by
    rw [← hok]
    exact ha
  exact hret w' c a hw hg hok hval

omit [Serde] [Digest] in
private theorem keepsHash_store {o : StoreOp}
    (ho : ∀ r step seq kind h', o ≠ .recordStep r step seq kind h') (id h : Text) :
    KeepsHash (.store o) id h := by
  intro r seq kind h' heq
  cases heq
  exact absurd rfl (ho _ _ _ _ _)

theorem safe_recordStep (hint : Intact (computed w.history) (w.state.runs run)) (seq : Int)
    (kind : Text) :
    (RunHandle.recordStep run (targetStepId id) seq kind h).Safe handle i (driveContract run i)
      (fun _ w => Working run i w id h) w := by
  refine safe_stateOp (fun _ _ _ hr hw => hw.rely hr) (fun w' _ => ?_) fun w' c a hr hg hok _ => ?_
  · simp only [Store.apply, Store.updateRun, Function.update_self]
    exact advances_recordStep fun h' hk => (hk run seq kind h rfl).symm
  · refine ⟨?_, ?_, hg.1.intact (intact_rely hr hint)⟩
    · rw [workingOn_perform_self, hok]
      rfl
    · rw [World.perform_state, hok]
      simp only [Store.apply, Store.updateRun, Function.update_self]
      exact hashAt_recordStep seq kind

theorem safe_step (hw : Working run i w id h) :
    (RunHandle.step run (targetStepId id)).Safe handle i (driveContract run i)
      (fun r w => Working run i w id h ∧ ∃ step, r = some step ∧ (step.status.isDone = true →
        ArtifactUnder (computed w.history) (w.state.runs run) id h)) w := by
  refine safe_stateOp ?_ (fun w' _ => advances_same (List.Subset.refl _) rfl rfl) ?_
  · rintro r w w' hr ⟨hw, step, hstep, ha⟩
    exact ⟨hw.rely hr, step, hstep, fun hs => hw.artifact_rely (ha hs) hr⟩
  · intro w' c r hr hg hok hret
    have hw' := hw.rely hr
    have hstep := hw'.step hg (keepsHash_store (by simp) id h) (by rw [hok]; rfl)
    obtain ⟨row, hrow, hhash⟩ := step_of_hashAt hw'.hash
    have hread : (w'.state.apply (.step run (targetStepId id))).1 = .ok (some
        ⟨targetStepId id, row.kind, row.inputHash, row.status, row.error, row.retryCount⟩) := by
      simp [Store.apply, hrow]
    rw [hread] at hret
    cases hret
    refine ⟨hstep, _, rfl, fun hs => ?_⟩
    have ha := hw'.intact id row hrow hs
    rw [hhash] at ha
    exact hg.1.artifact id h (keepsHash_store (by simp) id h) hw'.hash ha

theorem safe_beginStep (hw : Working run i w id h) :
    (RunHandle.beginStep run (targetStepId id)).Safe handle i (driveContract run i)
      (fun _ w => Working run i w id h) w := by
  refine safe_stateOp (fun _ _ _ hr hw => hw.rely hr) (fun w' hr => ?_) fun w' c a hr hg hok hret => ?_
  · obtain ⟨row, hrow, hhash⟩ := step_of_hashAt (hw.rely hr).hash
    simp only [Store.apply, hrow, Store.updateRun, Function.update_self]
    refine advances_setStep_undone (fun h' _ hh' => ?_) rfl
    rw [hashAt_of_step hrow] at hh'
    exact Option.some.inj hh'
  · refine (hw.rely hr).step hg (keepsHash_store (by simp) id h) ?_
    rw [hok, hret]
    rfl

/-- The artifact of the step the process works on, once it is written. -/
theorem safe_publishArtifact {bytes : Bytes} {o : TargetOutcome} (hw : Working run i w id h)
    (ho : (rt, configFp, o) ∈ computed w.history) (hhash : targetHash rt configFp = .ok h)
    (hbytes : encodeOutcome o = .ok bytes) (kind : Text) :
    (RunHandle.publishArtifact run (targetArtifact id) bytes kind (targetStepId id)).Safe handle i
      (driveContract run i) (fun _ w => Working run i w id h ∧
        ArtifactUnder (computed w.history) (w.state.runs run) id h) w := by
  have hjoin : (RunHandle.safeJoin (targetArtifact id) : RunProg Unit).Safe handle i
      (driveContract run i)
      (fun _ w => Working run i w id h ∧ (rt, configFp, o) ∈ computed w.history) w := by
    unfold RunHandle.safeJoin
    dsimp only
    split_ifs
    · exact Fallible.safe_throw
    · exact Fallible.safe_throw
    · exact Fallible.safe_pure fun w' hr => ⟨hw.rely hr, hr.1.computed ho⟩
  have hstable : ∀ w w', (driveContract run i).rely w w' → (Working run i w id h ∧
      ArtifactUnder (computed w.history) (w.state.runs run) id h) → Working run i w' id h ∧
      ArtifactUnder (computed w'.history) (w'.state.runs run) id h :=
    fun w w' hr hP => ⟨hP.1.rely hr, hP.1.artifact_rely hP.2 hr⟩
  refine Fallible.safe_bind hjoin fun _ w ⟨hw, ho⟩ => ?_
  have hfile : ∀ w', (driveContract run i).rely w w' →
      ArtifactUnder (computed w'.history)
        ((w'.state.runs run).setFile (targetArtifact id) bytes) id h := fun w' hr =>
    ⟨bytes, Function.update_self _ _ _, _, hr.1.computed ho, hhash, hbytes⟩
  refine Fallible.safe_bind (R := fun _ w => Working run i w id h ∧
    ArtifactUnder (computed w.history) (w.state.runs run) id h) ?_ fun _ w hP => ?_
  · refine safe_stateOp (fun _ => hstable) (fun w' hr => ?_) fun w' c a hr hg hok hret => ⟨?_, ?_⟩
    · simp only [Store.apply, Store.updateRun, Function.update_self]
      exact advances_setFile (hw.rely hr).hash (hfile w' hr)
    · refine (hw.rely hr).step hg (keepsHash_store (by simp) id h) ?_
      rw [hok]
      rfl
    · rw [World.perform_history, computed_store, World.perform_state, hok]
      simp only [Store.apply, Store.updateRun, Function.update_self]
      exact hfile w' hr
  · refine Fallible.safe_bind (R := fun _ w => Working run i w id h ∧
      ArtifactUnder (computed w.history) (w.state.runs run) id h) ?_
      fun _ w hP => Fallible.safe_pure fun w' hr => hstable w w' hr hP
    refine safe_stateOp (fun _ => hstable) (fun w' _ => ?_) fun w' c a hr hg hok _ => ⟨?_, ?_⟩
    · simp only [Store.apply, Store.updateRun, Function.update_self]
      exact advances_same (List.Subset.refl _) rfl rfl
    · refine (hP.1.rely hr).step hg (keepsHash_store (by simp) id h) ?_
      rw [hok]
      rfl
    · exact hg.1.artifact id h (keepsHash_store (by simp) id h) (hP.1.rely hr).hash
        (hP.1.artifact_rely hP.2 hr)

theorem safe_finishStep (hw : Working run i w id h)
    (ha : ArtifactUnder (computed w.history) (w.state.runs run) id h) (error : Option Text) :
    (RunHandle.finishStep run (targetStepId id) .succeeded error).Safe handle i
      (driveContract run i) (fun _ w => Intact (computed w.history) (w.state.runs run)) w := by
  refine safe_stateOp (fun _ _ _ hr hint => intact_rely hr hint) (fun w' hr => ?_)
    fun w' c a hr hg _ _ => hg.1.intact (hw.rely hr).intact
  obtain ⟨row, hrow, hhash⟩ := step_of_hashAt (hw.rely hr).hash
  simp only [Store.apply, hrow, Store.updateRun, Function.update_self]
  refine advances_setStep (fun h' _ hh' => ?_) fun _ _ => ?_
  · rw [hashAt_of_step hrow] at hh'
    exact Option.some.inj hh'
  · rw [hhash]
    exact hw.artifact_rely ha hr

private theorem safe_finishFailed (hint : Intact (computed w.history) (w.state.runs run))
    (error : Option Text) :
    (RunHandle.finishStep run (targetStepId id) .failed error).Safe handle i
      (driveContract run i) (fun _ w => Intact (computed w.history) (w.state.runs run)) w := by
  refine safe_stateOp (fun _ _ _ hr hint => intact_rely hr hint) (fun w' _ => ?_)
    fun w' c a hr hg _ _ => hg.1.intact (intact_rely hr hint)
  cases hrow : (w'.state.runs run).steps (targetStepId id) with
  | none =>
    simp only [Store.apply, hrow]
    exact advances_same (List.Subset.refl _) rfl rfl
  | some row =>
    simp only [Store.apply, hrow, Store.updateRun, Function.update_self]
    refine advances_setStep_undone (fun h' _ hh' => ?_) rfl
    rw [hashAt_of_step hrow] at hh'
    exact Option.some.inj hh'

theorem Returned.rely {o : TargetOutcome} (ho : Returned run configFp rt o w)
    (hr : (driveContract run i).rely w w') : Returned run configFp rt o w' :=
  ⟨hr.1.intact ho.1, ho.2.mono hr.1.computed⟩

private theorem safe_checkpoint {o : TargetOutcome} (hw : Working run i w id h)
    (ho : (rt, configFp, o) ∈ computed w.history) (hhash : targetHash rt configFp = .ok h) :
    (checkpoint run id (.ok o) : RunProg TargetOutcome).Safe handle i (driveContract run i)
      (Returned run configFp rt) w := by
  refine Fallible.safe_bind (R := fun bytes w => encodeOutcome o = .ok bytes ∧
    Working run i w id h ∧ (rt, configFp, o) ∈ computed w.history)
    (Fallible.safe_ofExcept fun bytes hbytes w' hr =>
      ⟨hbytes, hw.rely hr, hr.1.computed ho⟩) ?_
  rintro bytes w ⟨hbytes, hw, ho⟩
  have hfor : OutcomeFor (computed w.history) rt configFp o :=
    ⟨_, ho, ⟨h, hhash, hhash⟩, bytes, hbytes, .inl rfl⟩
  have hkept : ∀ w w' : RunWorld ι, computed w.history ⊆ computed w'.history →
      OutcomeFor (computed w.history) rt configFp o →
      OutcomeFor (computed w'.history) rt configFp o := fun _ _ hsub hfor => hfor.mono hsub
  refine Fallible.safe_bind ((safe_publishArtifact hw ho hhash hbytes "target").frame
    (fun w w' hr => hkept w w' hr.1.computed) (fun _ w w' hg => hkept w w' hg.1.computed) hfor) ?_
  rintro _ w ⟨⟨hw, ha⟩, hfor⟩
  refine Fallible.safe_bind ((safe_finishStep hw ha none).frame
    (fun w w' hr => hkept w w' hr.1.computed) (fun _ w w' hg => hkept w w' hg.1.computed) hfor) ?_
  intro _ w hP
  exact Fallible.safe_pure fun w' hr => Returned.rely hP hr

/-- Processing a target: an outcome enters the history while the process keeps its step. -/
theorem safe_callProcess (hw : Working run i w id h) (cfg : RunConfig) :
    Prog.Safe handle i (driveContract run i) (fun r w => Intact (computed w.history)
      (w.state.runs run) ∧ ∀ o, r = .ok o → Working run i w id h ∧
        (rt, configFp, o) ∈ computed w.history) (RunOp.callProcess cfg configFp rt).run w := by
  intro w' hr c
  have hw' := hw.rely hr
  let op : DriveOp RunOp := .ext (.process cfg configFp rt)
  have hg : (driveContract run i).guarantee op w' (w'.perform handle i c op).2 := guarantee_ext _
  refine ⟨hg, ?_⟩
  simp only [World.perform_fst, handle_ext, id_eq]
  cases hans : c.answer (.process cfg configFp rt) with
  | error e =>
    intro w'' hr'
    exact ⟨intact_rely hr' (hg.1.intact hw'.intact), fun o ho => nomatch ho⟩
  | ok o =>
    have hnext := hw'.step hg (fun _ _ _ _ heq => nomatch heq) (by
      rw [handle_ext, hans]
      rfl)
    have hmem : (rt, configFp, o) ∈
        computed (w'.perform handle i c (.ext (.process cfg configFp rt))).2.history := by
      rw [World.perform_history, handle_ext, hans]
      exact List.mem_cons_self
    intro w'' hr'
    refine ⟨intact_rely hr' hnext.intact, ?_⟩
    rintro o' ho'
    cases ho'
    exact ⟨hnext.rely hr', hr'.1.computed hmem⟩

private theorem safe_processStep (hw : Working run i w id h)
    (hhash : targetHash rt configFp = .ok h) (cfg : RunConfig) :
    (processStep run id (RunOp.callProcess cfg configFp rt)).Safe handle i (driveContract run i)
      (Returned run configFp rt) w := by
  refine Fallible.safe_bind (safe_beginStep hw) fun _ w hw => ?_
  refine Fallible.safe_capture_bind (safe_callProcess hw cfg) ?_
  rintro (e | o) w ⟨hint, hok⟩
  · refine Fallible.safe_capture_bind (Q := fun _ _ => True)
      (Prog.Safe.mono (safe_finishFailed hint _) fun _ _ _ => trivial)
      fun _ w _ => Fallible.safe_throw
  · exact safe_checkpoint (hok o rfl).1 (hok o rfl).2 hhash

/-- Restoring a done step: its artifact is there, and what it decodes to is for the target. -/
theorem safe_restore (hw : Working run i w id h) (hhash : targetHash rt configFp = .ok h)
    (ha : ArtifactUnder (computed w.history) (w.state.runs run) id h) :
    (readRunArtifact run (targetArtifact id) : RunProg (Option Bytes)).Safe handle i
      (driveContract run i) (fun r w => ∃ bytes o, r = some bytes ∧ encodeOutcome o = .ok bytes ∧
        ∀ o', decodeOutcome bytes = .ok o' → Returned run configFp rt o' w) w := by
  unfold readRunArtifact
  split_ifs
  · exact Fallible.safe_throw
  · refine Fallible.safe_attempt fun w' hr c => ?_
    let op : StoreOp := .readArtifact run (targetArtifact id)
    have hg : (driveContract run i).guarantee (.store op) w' (w'.perform handle i c (.store op)).2 :=
      guarantee_store (advances_same (List.Subset.refl _) rfl rfl)
    refine ⟨hg, fun r hret w'' hr' => ?_⟩
    have hok : handle c (.store (.readArtifact run (targetArtifact id))) w'.state =
        w'.state.apply (.readArtifact run (targetArtifact id)) := handle_ok hret
    have hval : (w'.state.apply (.readArtifact run (targetArtifact id))).1 = .ok r := by
      rw [← hok]
      exact hret
    obtain ⟨bytes, hfile, x, hx, hxhash, hxbytes⟩ := hw.artifact_rely ha hr
    simp only [Store.apply, hfile, Except.ok.injEq] at hval
    refine ⟨bytes, x.2.2, hval.symm, hxbytes, fun o' hdec => ?_⟩
    refine Returned.rely (w := (w'.perform handle i c _).2) ⟨?_, ?_⟩ hr'
    · exact hg.1.intact (intact_rely hr hw.intact)
    · exact ⟨x, hg.1.computed hx, ⟨h, hxhash, hhash⟩, bytes, hxbytes, .inr hdec⟩

theorem safe_driveTarget (hint : Intact (computed w.history) (w.state.runs run))
    (cfg : RunConfig) (n : Nat) :
    (driveTarget run configFp (RunOp.callProcess cfg configFp) n rt).Safe handle i
      (driveContract run i) (Returned run configFp rt) w := by
  refine Fallible.safe_bind (R := fun h w => targetHash rt configFp = .ok h ∧
    Intact (computed w.history) (w.state.runs run))
    (Fallible.safe_ofExcept fun h hh w' hr => ⟨hh, intact_rely hr hint⟩) ?_
  rintro h w ⟨hhash, hint⟩
  refine Fallible.safe_bind (safe_recordStep hint n "target") fun _ w hw => ?_
  refine Fallible.safe_bind (safe_step hw) ?_
  rintro _ w ⟨hw, step, rfl, hstep⟩
  by_cases hs : step.status.isDone = true
  · simp only [hs, if_true]
    refine Fallible.safe_bind (safe_restore hw hhash (hstep hs)) ?_
    rintro _ w ⟨bytes, o, rfl, -, ho⟩
    exact Fallible.safe_ofExcept fun o' hdec w' hr => (ho o' hdec).rely hr
  · simp only [hs]
    exact safe_processStep hw hhash cfg

theorem safe_driveFrom (hint : Intact (computed w.history) (w.state.runs run)) (cfg : RunConfig)
    (n : Nat) (ranked : List RankedTarget) :
    (driveFrom run configFp (RunOp.callProcess cfg configFp) n ranked).Safe handle i
      (driveContract run i) (fun outcomes w => Intact (computed w.history) (w.state.runs run) ∧
        List.Forall₂ (OutcomeFor (computed w.history) · configFp ·) ranked outcomes) w := by
  induction ranked generalizing n w with
  | nil => exact Fallible.safe_pure fun w' hr => ⟨intact_rely hr hint, .nil⟩
  | cons rt rest ih =>
    refine Fallible.safe_bind (safe_driveTarget hint cfg n) ?_
    rintro o w ⟨hint, ho⟩
    refine Fallible.safe_bind ((ih hint (n + 1)).frame
      (F := fun w => OutcomeFor (computed w.history) rt configFp o)
      (fun w w' hr hF => hF.mono hr.1.computed) (fun _ w w' hg hF => hF.mono hg.1.computed) ho) ?_
    rintro outcomes w ⟨⟨hint, hall⟩, ho⟩
    exact Fallible.safe_pure fun w' hr => ⟨intact_rely hr hint, .cons (ho.mono hr.1.computed)
      (hall.imp fun _ _ hF => hF.mono hr.1.computed)⟩

end

/-- One use of `drive_targets`. -/
structure DriveJob where
  ranked : List RankedTarget
  cfg : RunConfig
  configFp : Text

section

variable [Serde] [Digest]

def DriveJob.program (j : DriveJob) (run : RunId) : RunProg (List TargetOutcome) :=
  driveTargets run j.ranked j.configFp (RunOp.callProcess j.cfg j.configFp)

variable {run : RunId} {i : ι} {w w' : RunWorld ι}

theorem safe_driveJob (j : DriveJob) (hint : Intact (computed w.history) (w.state.runs run)) :
    (j.program run).Safe handle i (driveContract run i)
      (fun outcomes w => Intact (computed w.history) (w.state.runs run) ∧
        List.Forall₂ (OutcomeFor (computed w.history) · j.configFp ·) j.ranked outcomes) w :=
  safe_driveFrom hint j.cfg 0 j.ranked

theorem driveJob_reaches {j : DriveJob}
    {r : Option (Except OrchestratorError (List TargetOutcome))}
    (hint : Intact (computed w.history) (w.state.runs run))
    (hr : (j.program run).run.Reaches handle i w r w') :
    Intact (computed w'.history) (w'.state.runs run) ∧ ∀ outcomes, r = some (.ok outcomes) →
      List.Forall₂ (OutcomeFor (computed w'.history) · j.configFp ·) j.ranked outcomes := by
  obtain ⟨hint', hret⟩ := (safe_driveJob j hint).reaches
    (I := fun w => Intact (computed w.history) (w.state.runs run))
    (fun _ _ _ hg hint => hg.1.intact hint) hr hint
  exact ⟨hint', fun outcomes hout => (hret _ hout outcomes rfl).2⟩

end

end Jitgen
