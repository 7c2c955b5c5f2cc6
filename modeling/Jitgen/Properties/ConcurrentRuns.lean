import Jitgen.Orchestrator.DriveSafety
import Jitgen.Orchestrator.StoreDoubles

/-!
# Concurrent drives

Several processes drive one run at once. Neither the artifact file nor the end of a step is checked
against the hash recorded for it, so the checkpoints stay intact when nobody records other inputs
for a step that another process is working on.
-/

namespace Jitgen

open Text

section

variable {ι : Type} [DecidableEq ι]

/-- Drives of one run at once. -/
abbrev DrivePool (ι : Type) :=
  Pool ι (DriveAns RunAns) (Choice RunAns) Store (Except OrchestratorError (List TargetOutcome))

/-- No other process that still runs is working on the step the operation records, unless under
the same hash. -/
def Undisturbed (p : DrivePool ι) (i : ι) (o : DriveOp RunOp) : Prop :=
  ∀ j, j ≠ i → p.Running j → ∀ step h, workingOn j p.world.history = some (step, h) →
    ∀ r seq kind h', o = .store (.recordStep r step seq kind h') → h' = h

private theorem admissible_acts {i : ι} (cs : List (Choice RunAns)) {p : DrivePool ι}
    (hidle : ∀ j, j ≠ i → workingOn j p.world.history = none) :
    p.Admissible handle Undisturbed (cs.map (.act i)) := by
  induction cs generalizing p with
  | nil => trivial
  | cons c cs ih =>
    refine ⟨fun i' c' o k hact _ j hj _ step h hwork => ?_, ih fun j hj => ?_⟩
    · cases hact
      rw [hidle j hj] at hwork
      cases hwork
    · unfold Pool.step
      dsimp only
      split
      · exact (workingOn_perform_other hj c _ _).trans (hidle j hj)
      · exact hidle j hj

variable [Serde] [Digest] {run : RunId}

/-- Every process is about to start its drive. -/
def startDrives (run : RunId) (jobs : ι → DriveJob) (s : Store) : DrivePool ι :=
  ⟨fun i => some ((jobs i).program run).run, ⟨s, []⟩⟩

/-- What a returned drive promises. -/
def DrivenFor (run : RunId) (j : DriveJob) (r : Except OrchestratorError (List TargetOutcome))
    (w : RunWorld ι) : Prop :=
  ∀ outcomes, r = .ok outcomes → Intact (computed w.history) (w.state.runs run) ∧
    List.Forall₂ (OutcomeFor (computed w.history) · j.configFp ·) j.ranked outcomes

private theorem rely_of_undisturbed {p : DrivePool ι} {i j : ι} {o : DriveOp RunOp}
    {w' : RunWorld ι} (hij : i ≠ j) (hj : p.Running j) (ho : Undisturbed p i o)
    (hg : (driveContract run i).guarantee o p.world w') :
    (driveContract run j).rely p.world w' := by
  refine ⟨hg.1.mono fun id h hwork r seq kind h' heq => ?_, hg.2 j hij.symm⟩
  exact ho j hij.symm hj _ h hwork r seq kind h' heq

private theorem drives_compose (jobs : ι → DriveJob) :
    Pool.Composes (driveContract run) (fun i => DrivenFor run (jobs i))
      (fun w => Intact (computed w.history) (w.state.runs run)) Undisturbed where
  invariant i o w w' hg hint := hg.1.intact hint
  returned i o w w' hg j r hr := by
    intro outcomes hout
    obtain ⟨hint, hall⟩ := hr outcomes hout
    exact ⟨hg.1.intact hint, hall.imp fun _ _ ho => ho.mono hg.1.computed⟩
  rely p i j o w' hij hj ho hg _ := rely_of_undisturbed hij hj ho hg

/-- Drives of one run that do not disturb each other: a done step has an outcome computed under its
hash on file, and what a drive returns, one of these or a later one, was computed under the hashes
of its targets. -/
theorem driveTargets_concurrent (jobs : ι → DriveJob) {s : Store}
    (hs : ∀ id, (s.runs run).steps (targetStepId id) = none)
    {moves : List (Move ι (Choice RunAns))}
    (hadm : (startDrives run jobs s).Admissible handle Undisturbed moves) :
    let p := (startDrives run jobs s).run handle moves
    Intact (computed p.world.history) (p.world.state.runs run) ∧
    (∀ i outcomes, p.result i = some (.ok outcomes) → List.Forall₂
      (OutcomeFor (computed p.world.history) · (jobs i).configFp ·) (jobs i).ranked outcomes) ∧
    ∀ (j : DriveJob) (i : ι) (outcomes : List TargetOutcome) (w' : RunWorld ι),
      (j.program run).run.Reaches handle i p.world (some (.ok outcomes)) w' →
      List.Forall₂ (OutcomeFor (computed w'.history) · j.configFp ·) j.ranked outcomes := by
  intro p
  have hstart : (startDrives run jobs s).Safe handle (driveContract run)
      (fun i => DrivenFor run (jobs i))
      (fun w => Intact (computed w.history) (w.state.runs run)) := by
    refine Pool.Safe.start (fun i q hq => ?_) (intact_fresh hs)
    cases hq
    exact safe_driveJob (jobs i) (intact_fresh hs)
  have hsafe := hstart.run (drives_compose jobs) hadm
  refine ⟨hsafe.invariant, fun i outcomes hi => ?_, fun j i outcomes w' hr => ?_⟩
  · exact (hsafe.returned i _ (Pool.result_eq_some.mp hi) outcomes rfl).2
  · exact (driveJob_reaches hsafe.invariant hr).2 outcomes rfl

end

/-- Two drives of the sample target, each under a fingerprint of its own. -/
def twoJobs : Bool → DriveJob
  | false => ⟨[sampleTarget], runConfigFrom .default, "first"⟩
  | true => ⟨[sampleTarget], runConfigFrom looseConfig, "second"⟩

/-- The drives take turns: the second starts when the first has ended. -/
def turnTaking : List (Move Bool (Choice RunAns)) :=
  (List.replicate 7 steadyChoice).map (.act false) ++ (List.replicate 7 steadyChoice).map (.act true)

def tookTurns : DrivePool Bool :=
  letI := sampleSerde
  letI := hexDigest
  (startDrives sampleRunId twoJobs .empty).run handle turnTaking

theorem tookTurns_fresh :
    letI := sampleSerde
    letI := hexDigest
    List.Forall₂ (OutcomeFor (computed tookTurns.world.history) · "second" ·) [sampleTarget]
      [otherOutcome] := by
  let _ := sampleSerde
  let _ := hexDigest
  have hfirst : ∀ j : Bool, j ≠ false →
      workingOn j (startDrives sampleRunId twoJobs .empty).world.history = none := fun _ _ => rfl
  have hsecond : ∀ j : Bool, j ≠ true → workingOn j ((startDrives sampleRunId twoJobs .empty).run
      handle ((List.replicate 7 steadyChoice).map (.act false))).world.history = none := by
    decide +kernel
  have hadm : (startDrives sampleRunId twoJobs .empty).Admissible handle Undisturbed turnTaking :=
    Pool.admissible_append handle (admissible_acts _ hfirst) (admissible_acts _ hsecond)
  have hreturned := (driveTargets_concurrent twoJobs (fun _ => rfl) hadm).2.1 true [otherOutcome]
  have hrun : (startDrives sampleRunId twoJobs .empty).run handle turnTaking = tookTurns := rfl
  rw [hrun] at hreturned
  exact hreturned (by decide +kernel)

/-- The second drive records its inputs while the first stores its outcome, and restores it. -/
def overtaking : List (Move Bool (Choice RunAns)) :=
  List.replicate 4 (.act false steadyChoice) ++ [.act true steadyChoice] ++
    List.replicate 3 (.act false steadyChoice) ++ List.replicate 2 (.act true steadyChoice)

def overtaken : DrivePool Bool :=
  letI := sampleSerde
  letI := hexDigest
  (startDrives sampleRunId twoJobs .empty).run handle overtaking

/-- A later drive under the second fingerprint. -/
def laterDrive : Except OrchestratorError (List TargetOutcome) × RunWorld Bool :=
  letI := sampleSerde
  letI := hexDigest
  ((twoJobs true).program sampleRunId).run.runAll handle true steadyChoice overtaken.world

/-- The step is recorded succeeded under the second hash, nothing was ever computed under it, and
both the second drive and a later one return the outcome of the first. -/
theorem overtaken_stale :
    letI := sampleSerde
    letI := hexDigest
    (∃ row, (overtaken.world.state.runs sampleRunId).steps (targetStepId "t0") = some row ∧
      row.status = .succeeded ∧ targetHash sampleTarget "second" = .ok row.inputHash) ∧
    ¬ Intact (computed overtaken.world.history) (overtaken.world.state.runs sampleRunId) ∧
    overtaken.result true = some (.ok [otherOutcome]) ∧
    laterDrive.1 = .ok [otherOutcome] ∧
    computed laterDrive.2.history = [(sampleTarget, ("first" : Text), otherOutcome)] := by
  let _ := sampleSerde
  let _ := hexDigest
  have hcomputed : computed overtaken.world.history =
      [(sampleTarget, ("first" : Text), otherOutcome)] := by decide +kernel
  have hrow : ∃ row, (overtaken.world.state.runs sampleRunId).steps (targetStepId "t0") = some row ∧
      row.status = .succeeded ∧ targetHash sampleTarget "second" = .ok row.inputHash := by
    have hany : ((overtaken.world.state.runs sampleRunId).steps (targetStepId "t0")).any (fun row =>
        decide (row.status = .succeeded ∧ targetHash sampleTarget "second" = .ok row.inputHash)) =
        true := by decide +kernel
    simpa only [Option.any_eq_true, decide_eq_true_eq] using hany
  refine ⟨hrow, fun hint => ?_, by decide +kernel, by decide +kernel, by decide +kernel⟩
  obtain ⟨row, hstep, hstatus, hhash⟩ := hrow
  obtain ⟨-, -, x, hx, hxhash, -⟩ := hint "t0" row hstep (by rw [hstatus]; rfl)
  rw [hcomputed] at hx
  rw [List.mem_singleton.mp hx, ← hhash] at hxhash
  revert hxhash
  decide +kernel

end Jitgen
