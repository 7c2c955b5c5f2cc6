import Jitgen.Orchestrator.StoreDoubles
import Jitgen.Orchestrator.Uninterrupted

/-!
# Crash and resume

One process at a time drives a run, any number of times, under any configurations, and may crash
after any durable operation.
-/

namespace Jitgen

open Text

section

variable [Serde] [Digest]

/-- The worlds seen while drives of the run follow one another, each stopped anywhere. -/
inductive Driven (run : RunId) : RunWorld Unit → Prop
  | start (s : Store) (h : ∀ id, (s.runs run).steps (targetStepId id) = none) :
      Driven run ⟨s, []⟩
  | drive {w w' : RunWorld Unit} {r : Option (Except OrchestratorError (List TargetOutcome))}
      (j : DriveJob) (h : Driven run w)
      (hr : (j.program run).run.Reaches handle () w r w') : Driven run w'

/-- Different targets or fingerprints have different input hashes. -/
def HashInjective : Prop :=
  ∀ rt configFp rt' configFp' h, targetHash rt configFp = .ok h → targetHash rt' configFp' = .ok h →
    rt.target = rt'.target ∧ configFp = configFp'

/-- A stored outcome is read back as it was. -/
def OutcomeRoundTrips : Prop :=
  ∀ o bytes, encodeOutcome o = .ok bytes → decodeOutcome bytes = .ok o

/-- Every processing so far answered as `g` says. -/
def ProcessedBy (g : Target → Text → Except OrchestratorError TargetOutcome)
    (history : List (RunEntry Unit)) : Prop :=
  ∀ x ∈ computed history, g x.1.target x.2.1 = .ok x.2.2

/-- The drive from an empty store, without faults, where processing is `g`. -/
def uninterrupted (run : RunId) (g : Target → Text → Except OrchestratorError TargetOutcome)
    (j : DriveJob) : Except OrchestratorError (List TargetOutcome) :=
  ((j.program run).run.runAll handle () (faultless g) ⟨.empty, []⟩).1

variable {run : RunId} {w : RunWorld Unit}

theorem Driven.intact (hw : Driven run w) :
    Intact (computed w.history) (w.state.runs run) := by
  induction hw with
  | start s h => exact intact_fresh h
  | drive j _ hr ih => exact (driveJob_reaches ih hr).1

omit [Serde] [Digest] in
/-- What a faultless drive computes, it computes as `g` says. -/
private theorem processedBy_runAll (g : Target → Text → Except OrchestratorError TargetOutcome)
    {α : Type} (p : Prog (DriveAns RunAns) α) (hw : ProcessedBy g w.history) :
    ProcessedBy g (p.runAll handle () (faultless g) w).2.history := by
  refine Prog.runAll_invariant (I := fun w => ProcessedBy g w.history) (fun o w hw => ?_) p hw
  cases o with
  | store o => exact hw
  | ext x =>
    cases x with
    | process cfg configFp rt =>
      intro y hy
      rw [World.perform_history, handle_ext] at hy
      change y ∈ computed (⟨(), faultless g, ⟨.ext (.process cfg configFp rt),
        g rt.target configFp⟩⟩ :: w.history) at hy
      cases hg : g rt.target configFp with
      | error e =>
        rw [hg] at hy
        exact hw y hy
      | ok o =>
        rw [hg] at hy
        rcases List.mem_cons.mp hy with rfl | hy
        · exact hg
        · exact hw y hy
    | _ => exact hw

section

variable {g : Target → Text → Except OrchestratorError TargetOutcome} {configFp : Text}

theorem OutcomeFor.stored {done : List Computation} {rt : RankedTarget} {o : TargetOutcome}
    (ho : OutcomeFor done rt configFp o) (hround : OutcomeRoundTrips) :
    ∃ x ∈ done, x.2.2 = o ∧ (∃ h, targetHash x.1 x.2.1 = .ok h ∧ targetHash rt configFp = .ok h) ∧
      ∃ bytes, encodeOutcome o = .ok bytes := by
  obtain ⟨x, hx, hhash, bytes, hbytes, rfl | hdec⟩ := ho
  · exact ⟨x, hx, rfl, hhash, bytes, hbytes⟩
  · rw [hround _ _ hbytes] at hdec
    cases hdec
    exact ⟨x, hx, rfl, hhash, bytes, hbytes⟩

theorem OutcomeFor.exact {done : List Computation} {rt : RankedTarget} {o : TargetOutcome}
    (ho : OutcomeFor done rt configFp o) (hround : OutcomeRoundTrips) (hinj : HashInjective) :
    ∃ x ∈ done, x.1.target = rt.target ∧ x.2.1 = configFp ∧ x.2.2 = o := by
  obtain ⟨x, hx, rfl, ⟨h, hxhash, hhash⟩, -⟩ := ho.stored hround
  obtain ⟨htarget, hfp⟩ := hinj _ _ _ _ _ hxhash hhash
  exact ⟨x, hx, htarget, hfp, rfl⟩

theorem OutcomeFor.value {done : List Computation} {rt : RankedTarget} {o : TargetOutcome}
    (ho : OutcomeFor done rt configFp o) (hround : OutcomeRoundTrips) (hinj : HashInjective)
    (hdone : ∀ x ∈ done, g x.1.target x.2.1 = .ok x.2.2) : g rt.target configFp = .ok o := by
  obtain ⟨x, hx, htarget, hfp, rfl⟩ := ho.exact hround hinj
  rw [← htarget, ← hfp]
  exact hdone x hx

private theorem outcomes_unique (hround : OutcomeRoundTrips) (hinj : HashInjective)
    {done done' : List Computation} (hdone : ∀ x ∈ done, g x.1.target x.2.1 = .ok x.2.2)
    (hdone' : ∀ x ∈ done', g x.1.target x.2.1 = .ok x.2.2) {ranked : List RankedTarget}
    {outs outs' : List TargetOutcome} (h : List.Forall₂ (OutcomeFor done · configFp ·) ranked outs)
    (h' : List.Forall₂ (OutcomeFor done' · configFp ·) ranked outs') : outs = outs' := by
  induction h generalizing outs' with
  | nil =>
    cases h'
    rfl
  | cons ho _ ih =>
    cases h' with
    | cons ho' hrest' =>
      have heq := (ho.value hround hinj hdone).symm.trans (ho'.value hround hinj hdone')
      rw [Except.ok.inj heq, ih hrest']

private theorem drivable_of_outcomes (hround : OutcomeRoundTrips) (hinj : HashInjective)
    {done : List Computation} (hdone : ∀ x ∈ done, g x.1.target x.2.1 = .ok x.2.2)
    {ranked : List RankedTarget} {outcomes : List TargetOutcome}
    (hall : List.Forall₂ (OutcomeFor done · configFp ·) ranked outcomes) :
    ∀ rt ∈ ranked, (∃ h, targetHash rt configFp = .ok h) ∧
      ∃ o bytes, g rt.target configFp = .ok o ∧ encodeOutcome o = .ok bytes := by
  induction hall with
  | nil => simp
  | cons ho _ ih =>
    intro rt hrt
    rcases List.mem_cons.mp hrt with rfl | hrt
    · have hvalue := ho.value hround hinj hdone
      obtain ⟨-, -, -, ⟨h, -, hhash⟩, bytes, hbytes⟩ := ho.stored hround
      exact ⟨⟨h, hhash⟩, _, bytes, hvalue, hbytes⟩
    · exact ih rt hrt

end

private theorem uninterrupted_eq (hround : OutcomeRoundTrips) (hinj : HashInjective)
    {g : Target → Text → Except OrchestratorError TargetOutcome} {j : DriveJob}
    {outcomes : List TargetOutcome} (hg : ProcessedBy g w.history)
    (hall : List.Forall₂ (OutcomeFor (computed w.history) · j.configFp ·) j.ranked outcomes) :
    uninterrupted run g j = .ok outcomes := by
  let start : RunWorld Unit := ⟨.empty, []⟩
  have hint : Intact (computed start.history) (start.state.runs run) := intact_fresh fun _ => rfl
  obtain ⟨outcomes', hout⟩ : (j.program run).Completes handle () (faultless g) start :=
    completes_driveFrom hround hint (drivable_of_outcomes hround hinj hg hall) j.cfg 0
  have hrun : (j.program run).run.Reaches handle () start _ _ :=
    Prog.reaches_runAll (faultless g) _ _
  have hreach := driveJob_reaches hint hrun
  have hstart : ProcessedBy g start.history := fun x hx => nomatch hx
  have heq : outcomes' = outcomes := outcomes_unique hround hinj
    (processedBy_runAll g (j.program run).run hstart) hg
    (hreach.2 outcomes' (congrArg some hout)) hall
  rw [← heq]
  exact hout

/-- A succeeded step has an outcome computed under its hash on file wherever drives stop, and a
drive that returns, returns what was computed for its targets under its fingerprint; where
processing is a function, that is what the uninterrupted drive returns. -/
theorem driveTargets_crash_resume (hround : OutcomeRoundTrips) (hinj : HashInjective)
    (hw : Driven run w) :
    (∀ id row, (w.state.runs run).steps (targetStepId id) = some row → row.status = .succeeded →
      ∃ bytes, (w.state.runs run).files (targetArtifact id) = some bytes ∧
        ∃ x ∈ computed w.history, targetHash x.1 x.2.1 = .ok row.inputHash ∧
          encodeOutcome x.2.2 = .ok bytes) ∧
    ∀ (j : DriveJob) (outcomes : List TargetOutcome) (w' : RunWorld Unit),
      (j.program run).run.Reaches handle () w (some (.ok outcomes)) w' →
      List.Forall₂ (fun rt o => ∃ x ∈ computed w'.history,
        x.1.target = rt.target ∧ x.2.1 = j.configFp ∧ x.2.2 = o) j.ranked outcomes ∧
      ∀ g, ProcessedBy g w'.history → uninterrupted run g j = .ok outcomes := by
  have hint := hw.intact
  constructor
  · intro id row hrow hs
    exact hint id row hrow (by rw [hs]; rfl)
  · intro j outcomes w' hr
    have hall := (driveJob_reaches hint hr).2 outcomes rfl
    exact ⟨hall.imp fun _ _ ho => ho.exact hround hinj,
      fun g hg => uninterrupted_eq hround hinj hg hall⟩

end

private theorem sample_hashInjective :
    letI := sampleSerde
    letI := hexDigest
    HashInjective := by
  intro rt configFp rt' configFp' h hhash hhash'
  let _ := sampleSerde
  let _ := hexDigest
  obtain ⟨bytes, hbytes, rfl⟩ := targetHash_ok hhash
  obtain ⟨bytes', hbytes', heq⟩ := targetHash_ok hhash'
  have hmaterial := hexText_injective heq
  rw [List.append_assoc, List.append_assoc] at hmaterial
  obtain ⟨rfl, htail⟩ := List.append_inj hmaterial
    ((encodeAmong_length hbytes).trans (encodeAmong_length hbytes').symm)
  exact ⟨encodeAmong_injective (by decide) hbytes hbytes',
    toUtf8_injective (List.append_cancel_left htail)⟩

private theorem sample_outcomeRoundTrips :
    letI := sampleSerde
    OutcomeRoundTrips := by
  intro o bytes h
  exact serdeResult_ok.mpr (decodeAmong_encodeAmong (by decide) (serdeResult_ok.mp h))

def sampleJob : DriveJob := ⟨[sampleTarget], runConfigFrom .default, "fp"⟩

/-- The world a crash leaves right after the artifact file of the target was written. -/
def interruptedDrive : RunWorld Unit :=
  letI := sampleSerde
  letI := hexDigest
  ((sampleJob.program sampleRunId).run.runFor handle () (List.replicate 5 steadyChoice)
    ⟨.empty, []⟩).2

/-- The drive that follows the crash. -/
def resumedDrive : Except OrchestratorError (List TargetOutcome) × RunWorld Unit :=
  letI := sampleSerde
  letI := hexDigest
  (sampleJob.program sampleRunId).run.runAll handle () steadyChoice interruptedDrive

theorem interruptedDrive_resumes :
    letI := sampleSerde
    letI := hexDigest
    resumedDrive.1 = .ok [otherOutcome] ∧
      uninterrupted sampleRunId (fun _ _ => .ok otherOutcome) sampleJob = .ok [otherOutcome] := by
  let _ := sampleSerde
  let _ := hexDigest
  have hret : resumedDrive.1 = .ok [otherOutcome] := by decide +kernel
  have hcomputed : computed resumedDrive.2.history =
      List.replicate 2 (sampleTarget, ("fp" : Text), otherOutcome) := by
    decide +kernel
  have hdriven : Driven sampleRunId interruptedDrive :=
    .drive sampleJob (.start .empty fun _ => rfl) (Prog.reaches_runFor _ _ _)
  have hreach : (sampleJob.program sampleRunId).run.Reaches handle () interruptedDrive
      (some resumedDrive.1) resumedDrive.2 := Prog.reaches_runAll _ _ _
  rw [hret] at hreach
  refine ⟨hret, ((driveTargets_crash_resume sample_outcomeRoundTrips sample_hashInjective
    hdriven).2 sampleJob _ _ hreach).2 _ fun x hx => ?_⟩
  rw [hcomputed] at hx
  rw [List.eq_of_mem_replicate hx]

end Jitgen
