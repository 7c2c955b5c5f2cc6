import Jitgen.Orchestrator.Checkpoint

/-!
# Sessions on one state root

Invocations follow one another, each stopped anywhere. What an invocation does to the store is read
off the operations its parts may use.
-/

namespace Jitgen

open Text

/-- The run an operation is about, if it is about one. -/
def subject : DriveOp RunOp → Option RunId
  | .store o => some o.run
  | .ext (.analyze run _ _ _ _) => some run
  | .ext (.assembled run _) => some run
  | .ext _ => none

/-- Operations on the steps and artifacts of a run, and the artifact files they write. -/
def StepOp (run : RunId) (rels : Text → Prop) : DriveOp RunOp → Prop
  | .store (.recordStep r _ _ _ _) => r = run
  | .store (.step r _) => r = run
  | .store (.beginStep r _) => r = run
  | .store (.finishStep r _ _ _) => r = run
  | .store (.writeArtifact r rel _) => r = run ∧ rels rel
  | .store (.insertArtifact r _) => r = run
  | .store (.readArtifact r _) => r = run
  | .ext (.process _ _ _) => True
  | _ => False

/-- The operations that reopen a run. -/
def ReopenOp (run : RunId) (o : DriveOp RunOp) : Prop :=
  o = .store (.getRun run) ∨ o = .store (.openRun run)

/-- The operations that create or reopen a run. -/
def OpenOp (info : RunMeta) (o : DriveOp RunOp) : Prop :=
  o = .store (.insertRun info) ∨ ReopenOp info.runId o

/-- Operations about one run, or about none. -/
def About (run : RunId) (o : DriveOp RunOp) : Prop := ∀ r, subject o = some r → r = run

private theorem StepOp.about {run : RunId} {rels : Text → Prop} {o : DriveOp RunOp}
    (ho : StepOp run rels o) : About run o := by
  intro r hr
  revert ho hr
  cases o with
  | store o => cases o <;> rintro ho ⟨⟩ <;> first | exact ho.1 | exact ho | exact ho.elim
  | ext x => cases x <;> rintro ho ⟨⟩ <;> exact ho.elim

private theorem ReopenOp.about {run : RunId} {o : DriveOp RunOp} (ho : ReopenOp run o) :
    About run o := by
  intro r hr
  rcases ho with rfl | rfl <;> exact (Option.some.inj hr).symm

private theorem OpenOp.about {info : RunMeta} {o : DriveOp RunOp} (ho : OpenOp info o) :
    About info.runId o := by
  rcases ho with rfl | ho
  · exact fun r hr => (Option.some.inj hr).symm
  · exact ho.about

section

variable {run : RunId} {rels : Text → Prop} {φ : DriveOp RunOp → Prop}

theorem uses_stateOp {o : StoreOp} (h : φ (.store o)) : (stateOp o : RunProg o.Res).Uses φ :=
  Fallible.uses_attempt h

private theorem uses_ensureSafeRunId (id : RunId) :
    (RunStore.ensureSafeRunId id : RunProg Unit).Uses φ := by
  unfold RunStore.ensureSafeRunId
  split_ifs
  · exact Fallible.uses_pure _
  · exact Fallible.uses_throw _

theorem uses_openRun : (RunStore.openRun run : RunProg Unit).Uses (ReopenOp run) := by
  refine Fallible.uses_bind (uses_ensureSafeRunId _) fun _ => ?_
  refine Fallible.uses_bind (uses_stateOp (.inl rfl)) ?_
  rintro (_ | _)
  · exact Fallible.uses_throw _
  · exact uses_stateOp (.inr rfl)

theorem uses_createRun (info : RunMeta) :
    (RunStore.createRun info : RunProg Unit).Uses (OpenOp info) := by
  refine Fallible.uses_bind (uses_ensureSafeRunId _) fun _ => ?_
  refine Fallible.uses_bind (uses_stateOp (.inl rfl)) fun _ => ?_
  refine Fallible.uses_bind (uses_stateOp (.inr (.inl rfl))) ?_
  rintro (_ | existing)
  · exact uses_openRun.mono fun _ => .inr
  · dsimp only
    split_ifs
    · exact uses_openRun.mono fun _ => .inr
    · exact Fallible.uses_throw _

private theorem uses_readRunArtifact (rel : Text) :
    (readRunArtifact run rel : RunProg (Option Bytes)).Uses (StepOp run rels) := by
  unfold readRunArtifact
  split_ifs
  · exact Fallible.uses_throw _
  · exact Fallible.uses_attempt rfl

variable [Serde] [Digest]

omit [Serde] in
private theorem uses_publishArtifact {rel : Text} (hrel : rels rel) (bytes : Bytes)
    (kind step : Text) :
    (RunHandle.publishArtifact run rel bytes kind step : RunProg ArtifactRecord).Uses
      (StepOp run rels) := by
  have hjoin : (RunHandle.safeJoin rel : RunProg Unit).Uses (StepOp run rels) := by
    unfold RunHandle.safeJoin
    dsimp only
    split_ifs
    · exact Fallible.uses_throw _
    · exact Fallible.uses_throw _
    · exact Fallible.uses_pure _
  refine Fallible.uses_bind hjoin fun _ => ?_
  refine Fallible.uses_bind (uses_stateOp ⟨rfl, hrel⟩) fun _ => ?_
  exact Fallible.uses_bind (uses_stateOp rfl) fun _ => Fallible.uses_pure _

omit [Serde] in
private theorem uses_publishStep {rel : Text} (hrel : rels rel) (step kind hash akind : Text)
    (seq : Int) (bytes : Bytes) :
    (do
      RunHandle.recordStep run step seq kind hash
      RunHandle.beginStep run step
      let _ ← RunHandle.publishArtifact run rel bytes akind step
      RunHandle.finishStep run step .succeeded none : RunProg Unit).Uses (StepOp run rels) := by
  refine Fallible.uses_bind (uses_stateOp rfl) fun _ => ?_
  refine Fallible.uses_bind (uses_stateOp rfl) fun _ => ?_
  refine Fallible.uses_bind (uses_publishArtifact hrel _ _ _) fun _ => ?_
  exact uses_stateOp rfl

theorem uses_persistTrusted (trusted : TrustedConfig) :
    (persistTrusted run trusted).Uses (StepOp run (· = "config.json")) := by
  refine Fallible.uses_bind (Fallible.uses_ofExcept _) fun bytes => ?_
  refine uses_publishStep ?_ "setup" "setup" _ "config" (-1) bytes
  rfl

theorem uses_persistReport (report : RunReport) :
    (persistReport run report).Uses (StepOp run (· = "report.json")) := by
  refine Fallible.uses_bind (Fallible.uses_ofExcept _) fun bytes => ?_
  refine uses_publishStep ?_ "report" "report" _ "report" seqMax bytes
  rfl

/-- The artifact of some target. -/
def IsTargetArtifact (rel : Text) : Prop := ∃ id, rel = targetArtifact id

private theorem uses_processStep (id : Text) (cfg : RunConfig) (configFp : Text)
    (rt : RankedTarget) :
    (processStep run id (RunOp.callProcess cfg configFp rt)).Uses (StepOp run IsTargetArtifact) := by
  refine Fallible.uses_bind (uses_stateOp rfl) fun _ => ?_
  refine Fallible.uses_bind (Fallible.uses_capture (Fallible.uses_attempt trivial)) ?_
  rintro (e | o)
  · exact Fallible.uses_bind (Fallible.uses_capture (uses_stateOp rfl)) fun _ =>
      Fallible.uses_throw _
  · refine Fallible.uses_bind (Fallible.uses_ofExcept _) fun bytes => ?_
    refine Fallible.uses_bind (uses_publishArtifact ⟨id, rfl⟩ _ _ _) fun _ => ?_
    exact Fallible.uses_bind (uses_stateOp rfl) fun _ => Fallible.uses_pure _

private theorem uses_driveTarget (cfg : RunConfig) (configFp : Text) (n : Nat) (rt : RankedTarget) :
    (driveTarget run configFp (RunOp.callProcess cfg configFp) n rt).Uses
      (StepOp run IsTargetArtifact) := by
  refine Fallible.uses_bind (Fallible.uses_ofExcept _) fun hash => ?_
  refine Fallible.uses_bind (uses_stateOp rfl) fun _ => ?_
  refine Fallible.uses_bind (uses_stateOp rfl) ?_
  rintro (_ | step)
  · exact Fallible.uses_throw _
  · dsimp only
    split_ifs
    · refine Fallible.uses_bind (uses_readRunArtifact _) ?_
      rintro (_ | bytes)
      · exact uses_processStep _ cfg configFp rt
      · exact Fallible.uses_ofExcept _
    · exact uses_processStep _ cfg configFp rt

theorem uses_driveTargets (cfg : RunConfig) (configFp : Text) (ranked : List RankedTarget) :
    (driveTargets run ranked configFp (RunOp.callProcess cfg configFp)).Uses
      (StepOp run IsTargetArtifact) := by
  unfold driveTargets
  generalize 0 = n
  induction ranked generalizing n with
  | nil => exact Fallible.uses_pure _
  | cons rt rest ih =>
    refine Fallible.uses_bind (uses_driveTarget cfg configFp n rt) fun _ => ?_
    exact Fallible.uses_bind (ih (n + 1)) fun _ => Fallible.uses_pure _

/-- The operations of a drive: it begins, works on steps, and notes and stores its report. -/
def DriveRunOp (run : RunId) (o : DriveOp RunOp) : Prop :=
  StepOp run (fun rel => IsTargetArtifact rel ∨ rel = "report.json") o ∨
    (∃ base head trusted injected, o = .ext (.analyze run base head trusted injected)) ∨
    ∃ report, o = .ext (.assembled run report)

omit [Serde] [Digest] in
theorem StepOp.mono {rels' : Text → Prop} {o : DriveOp RunOp} (ho : StepOp run rels o)
    (h : ∀ rel, rels rel → rels' rel) : StepOp run rels' o := by
  unfold StepOp at ho ⊢
  split at ho <;> first | exact ho | exact ⟨ho.1, h _ ho.2⟩

variable [WordChars]

theorem uses_driveRun (base head : Text) (trusted : TrustedConfig) (injected : Bool) :
    (driveRun run base head trusted injected).Uses (DriveRunOp run) := by
  refine Fallible.uses_bind (Fallible.uses_attempt (.inr (.inl ⟨_, _, _, _, rfl⟩))) fun _ => ?_
  refine Fallible.uses_bind ((uses_driveTargets _ _ _).mono fun o ho =>
    .inl (ho.mono fun _ => .inl)) fun _ => ?_
  refine Fallible.uses_bind (Fallible.uses_attempt (.inr (.inr ⟨_, rfl⟩))) fun _ => ?_
  refine Fallible.uses_bind ((uses_persistReport _).mono fun o ho =>
    .inl (ho.mono fun _ => .inr)) fun _ => ?_
  exact Fallible.uses_pure _

omit [Serde] [Digest] [WordChars] in
private theorem DriveRunOp.about {o : DriveOp RunOp} (ho : DriveRunOp run o) : About run o := by
  rcases ho with ho | ⟨_, _, _, _, rfl⟩ | ⟨_, rfl⟩
  · exact ho.about
  · exact fun r hr => (Option.some.inj hr).symm
  · exact fun r hr => (Option.some.inj hr).symm

omit [Serde] [Digest] [WordChars] in
private theorem uses_setRunStatus (status : Text) :
    (RunStore.setRunStatus run status : RunProg Unit).Uses (About run) :=
  uses_stateOp fun _ hr => (Option.some.inj hr).symm

theorem uses_runJitGeneration (info : RunMeta) (base head : Text) (trusted : TrustedConfig)
    (injected : Bool) :
    (do
      RunStore.createRun info
      RunStore.setRunStatus info.runId "running"
      persistTrusted info.runId trusted
      let report ← driveRun info.runId base head trusted injected
      RunStore.setRunStatus info.runId "completed"
      return report : RunProg RunReport).Uses (About info.runId) := by
  refine Fallible.uses_bind ((uses_createRun info).mono fun _ ho => ho.about) fun _ => ?_
  refine Fallible.uses_bind (uses_setRunStatus _) fun _ => ?_
  refine Fallible.uses_bind ((uses_persistTrusted _).mono fun _ ho => ho.about) fun _ => ?_
  refine Fallible.uses_bind ((uses_driveRun _ _ _ _).mono fun _ ho => ho.about) fun report => ?_
  exact Fallible.uses_bind (uses_setRunStatus _) fun _ => Fallible.uses_pure _

omit [Serde] [Digest] [WordChars] in
theorem uses_requireRun : (requireRun run : RunProg RunMeta).Uses (· = .store (.getRun run)) := by
  refine Fallible.uses_bind (uses_stateOp rfl) ?_
  rintro (_ | info)
  · exact Fallible.uses_throw _
  · exact Fallible.uses_pure _

omit [Digest] [WordChars] in
theorem uses_loadTrusted : (loadTrusted run).Uses (StepOp run rels) := by
  refine Fallible.uses_bind (uses_readRunArtifact _) ?_
  rintro (_ | bytes)
  · exact Fallible.uses_throw _
  · exact Fallible.uses_ofExcept _

theorem uses_resumeRun (stateRoot : Text) : (resumeRun stateRoot run).Uses (About run) := by
  have hload : (loadTrusted run).Uses (StepOp run fun _ => True) := uses_loadTrusted
  refine Fallible.uses_bind (Fallible.uses_attempt (by simp [About, subject])) fun _ => ?_
  refine Fallible.uses_bind (uses_requireRun.mono fun o ho =>
    ReopenOp.about (.inl ho)) fun info => ?_
  refine Fallible.uses_bind (Fallible.uses_attempt (by simp [About, subject])) fun _ => ?_
  refine Fallible.uses_bind (Fallible.uses_attempt (by simp [About, subject])) fun revs => ?_
  refine Fallible.uses_bind (uses_openRun.mono fun _ ho => ho.about) fun _ => ?_
  refine Fallible.uses_bind (hload.mono fun _ ho => ho.about) fun trusted => ?_
  refine Fallible.uses_bind (uses_setRunStatus _) fun _ => ?_
  refine Fallible.uses_bind ((uses_driveRun _ _ _ _).mono fun _ ho => ho.about) fun report => ?_
  exact Fallible.uses_bind (uses_setRunStatus _) fun _ => Fallible.uses_pure _

/-- The worlds seen while invocations follow one another, each stopped anywhere. -/
inductive Session : RunWorld Invocation → Prop
  | start : Session ⟨.empty, []⟩
  | invoke {w w' : RunWorld Invocation} {r : Option (Except OrchestratorError RunReport)}
      (inv : Invocation) (h : Session w) (hr : inv.program.run.Reaches handle inv w r w') :
      Session w'

theorem Session.invariant {I : RunWorld Invocation → Prop} (hstart : I ⟨.empty, []⟩)
    (hstep : ∀ (inv : Invocation) w, I w → inv.program.Safe handle inv (.keeping I) (fun _ _ => True) w)
    {w : RunWorld Invocation} (hw : Session w) : I w := by
  induction hw with
  | start => exact hstart
  | invoke inv _ hr ih => exact ((hstep inv _ ih).keeps hr ih).1

end

end Jitgen
