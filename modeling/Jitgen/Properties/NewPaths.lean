import Jitgen.Orchestrator.StoreDoubles
import Jitgen.Orchestrator.TargetDriver
import Jitgen.Properties.HardenFidelity

/-!
# Paths of accepted tests

The path of a test is derived without a look at the trees. Where the revision that a candidate is
run on has nothing at its path, an accepted test is a new file; a file that is already there is
either taken for the test or ends the run.
-/

namespace Jitgen

open Text

/-- No entry of the tree is at the path or below it. -/
def GitTree.Vacant (tree : GitTree) (path : List Text) : Prop :=
  ∀ e ∈ tree.entries, ∀ rel ∈ e.path, ¬ path <+: segments rel

instance (tree : GitTree) (path : List Text) : Decidable (tree.Vacant path) :=
  inferInstanceAs (Decidable (∀ e ∈ tree.entries, ∀ rel ∈ e.path, ¬ path <+: segments rel))

/-- The tree that is checked out for a variant. -/
def Revisions.treeOf (revs : Revisions) : Variant → GitTree
  | .base => revs.base
  | .head => revs.head
  | .mutant _ => revs.base

/-- A mutation writes only a file that is there. -/
private theorem mutateOverlay_vacant {o o' : Overlay} {m : Mutant} {q : List Text}
    (h : mutateOverlay o m = .ok o') (hq : o q = none) : o' q = none := by
  unfold mutateOverlay at h
  split at h
  · cases h
  · cases h
  · rename_i original hread
    split at h
    · cases h
    · split at h
      · cases h
      · rename_i mutated _
        have hsafe : rejectUnsafeRel m.path = false := by
          cases hsafe : rejectUnsafeRel m.path with
          | false => rfl
          | true => simp [readOverlayFile, hsafe] at hread
        obtain ⟨n, hwalk⟩ := walk_of_metadata (metadata_of_read hread)
        have haway : ¬ q <+: segments m.path := by
          rintro ⟨rest, hrest⟩
          have hsome : ∃ k, o q = some k := by
            by_cases hnil : rest = []
            · rw [hnil, List.append_nil] at hrest
              rw [← hrest] at hwalk
              exact ⟨n, Overlay.walk_get hwalk⟩
            · rw [← hrest] at hwalk
              exact ⟨.dir, Overlay.walk_get (Overlay.walk_append hnil hwalk)⟩
          obtain ⟨k, hk⟩ := hsome
          rw [hq] at hk
          cases hk
        cases hwrite : writeFile o m.path (toUtf8 mutated) with
        | error e => simp [hwrite, Except.mapError] at h
        | ok o₁ =>
          simp only [hwrite, Except.mapError, Except.ok.injEq] at h
          subst h
          unfold writeFile at hwrite
          rw [if_neg (by simp [hsafe])] at hwrite
          rw [writeConfined_frame hsafe hwrite haway]
          exact hq

private theorem checkout_vacant {tree : GitTree} {o : Overlay} {q : List Text} (hne : q ≠ [])
    (h : checkoutRevision tree .empty = .ok o) (hq : tree.Vacant q) : o q = none := by
  rw [checkoutRevision_frame h hq]
  exact if_neg hne

private theorem populateOverlay_vacant {revs : Revisions} {v : Variant} {o : Overlay}
    {q : List Text} (hne : q ≠ []) (h : populateOverlay revs v .empty = .ok o)
    (hq : (revs.treeOf v).Vacant q) :
    o q = none := by
  have hcheckout : ∀ tree o', (checkoutRevision tree .empty).mapError PopulateError.overlay =
      .ok o' → tree.Vacant q → o' q = none := by
    intro tree o' ho' hvacant
    cases hres : checkoutRevision tree .empty with
    | error e => simp [hres, Except.mapError] at ho'
    | ok o₁ =>
      simp only [hres, Except.mapError, Except.ok.injEq] at ho'
      subst ho'
      exact checkout_vacant hne hres hvacant
  cases v with
  | base => exact hcheckout _ _ h hq
  | head => exact hcheckout _ _ h hq
  | mutant m =>
    obtain ⟨o₁, ho₁, hm⟩ := bind_eq_ok.mp h
    exact mutateOverlay_vacant hm (hcheckout _ _ ho₁ hq)

/-- The candidate that the operation runs, if it runs one, meets nothing at its path. -/
def VacantRun (revs : Revisions) (o : PipelineOp) : Prop :=
  ∀ c v, o = .runCandidate c v → (revs.treeOf v).Vacant (segments c.relPath)

instance (revs : Revisions) : DecidablePred (VacantRun revs)
  | .runCandidate c v =>
    decidable_of_iff ((revs.treeOf v).Vacant (segments c.relPath))
      ⟨fun h c' v' heq => by cases heq; exact h, fun h => h c v rfl⟩
  | .generate _ => isTrue fun _ _ heq => by cases heq
  | .runExisting _ => isTrue fun _ _ heq => by cases heq

section

variable {H : Type} [Digest]

/-- On a vacant path no write is refused because something is there. -/
private theorem answer_tolerant {revs : Revisions} {host : SandboxHost H}
    (verdict : ExecutionResult) (h : H) {o : PipelineOp} (hvacant : VacantRun revs o) :
    SandboxExecutor.answer revs host.toHost h o =
      SandboxExecutor.answer revs (host.tolerant verdict) h o := by
  cases o with
  | generate req => rfl
  | runExisting v => rfl
  | runCandidate c v =>
    show SandboxExecutor.runInFreshOverlay revs host.toHost h (.runCandidate c v) v =
      SandboxExecutor.runInFreshOverlay revs (host.tolerant verdict) h (.runCandidate c v) v
    unfold SandboxExecutor.runInFreshOverlay
    apply bind_congr
    intro root
    cases hpop : populateOverlay revs v .empty with
    | error e => rfl
    | ok overlay =>
      show host.executeWith (fun e => .error ⟨e.display⟩) h (.runCandidate c v) overlay =
        host.executeWith
          (fun e => if e.destinationTaken then .ok verdict else .error ⟨e.display⟩) h
          (.runCandidate c v) overlay
      unfold SandboxHost.executeWith
      apply bind_congr
      intro opened
      cases hmat : Materialize.materialize opened overlay c with
      | ok written => rfl
      | error e =>
        have hfree : e.destinationTaken = false :=
          Materialize.materialize_vacant
            (fun hne => populateOverlay_vacant hne hpop (hvacant c v rfl)) hmat
        simp [hfree]

end

section

variable [WordChars] [JsonText] [Serde] [Digest]

namespace SandboxedDrive

/-- The drive in which a taken destination would only have been a verdict. -/
def tolerated (d : SandboxedDrive) (verdict : ExecutionResult) (h : Trace (DriveAns Ans)) :
    Except OrchestratorError (List TargetOutcome) × Trace (DriveAns Ans) :=
  d.resultOn (d.host.tolerant verdict) h

/-- What a drive processes is accepted at paths that the head does not have, and a path that exists
never decides how the drive goes on. -/
structure NewPaths (d : SandboxedDrive) (h : Trace (DriveAns Ans)) : Prop where
  absent : ∀ outcomes, (d.result h).1 = .ok outcomes → ∀ out ∈ outcomes,
    Restored (d.result h).2 out ∨ ∀ a ∈ out.accepted, d.revs.head.Vacant (segments a.path)
  harmless : ∀ verdict, d.result h = d.tolerated verdict h

/-- An event that runs no candidate at a path its revision has. -/
def VacantStep (revs : Revisions) (o : DriveOp PipelineOp) : Prop :=
  ∀ p, o = .ext p → VacantRun revs p

instance (revs : Revisions) : DecidablePred (VacantStep revs)
  | .store _ => isTrue fun _ heq => by cases heq
  | .ext p => decidable_of_iff (VacantRun revs p) ⟨fun h _ heq => by cases heq; exact h,
      fun h => h p rfl⟩

end SandboxedDrive

omit [Serde] [Digest] in
open SandboxedDrive in
private theorem process_accepts_vacant {revs : Revisions} {driver : TargetDriver}
    {rt : RankedTarget} {t : Trace (DriveAns Ans)} {out : TargetOutcome}
    (h : (driver.process rt).Returns t out) (hvacant : ∀ e ∈ t, VacantStep revs e.1) :
    ∀ a ∈ out.accepted, revs.head.Vacant (segments a.path) := by
  intro a ha
  unfold TargetDriver.process at h
  split_ifs at h
  · obtain ⟨t₀, rfl, hp⟩ := Fallible.returns_hoist.mp (Fallible.returns_mapError.mp h)
    obtain ⟨-, c, rs, htested⟩ := acceptedFaithful_of_returns hp a ha
    cases rs with
    | nil => exact absurd htested.runs (by simp)
    | cons r rs =>
      have hmem : ranCandidate c .head r ∈ t₀ := htested.block.subset (by simp)
      rw [htested.path_eq]
      exact hvacant _ (List.mem_map_of_mem hmem) _ rfl c .head rfl
  · exact absurd h Fallible.returns_throw

/-- In a drive whose candidate runs meet nothing at their paths, accepted paths are new and no path
ends the drive. -/
theorem drive_newPaths (d : SandboxedDrive) (h : Trace (DriveAns Ans))
    (hvacant : ∀ e ∈ (d.result h).2, SandboxedDrive.VacantStep d.revs e.1) : d.NewPaths h where
  absent := by
    intro outcomes hok out hout
    have hruns := Prog.runs_run (driveEnv d.store (SandboxExecutor.answer d.revs d.host.toHost))
      (driveTargets d.run d.ranked d.configFp d.driver.process).run h
    have hreturns : (driveTargets d.run d.ranked d.configFp d.driver.process).Returns
        (d.result h).2 outcomes := by
      unfold Fallible.Returns Fallible.Runs
      rw [← hok]
      exact hruns
    rcases driveTargets_returns hreturns out hout with hr | ⟨rt, -, t₀, hsub, hp⟩
    · exact .inl hr
    · exact .inr (process_accepts_vacant hp fun e he => hvacant e (hsub he))
  harmless := by
    intro verdict
    apply Prog.run_congr (SandboxedDrive.VacantStep d.revs)
    · intro past o ho
      cases o with
      | store o => rfl
      | ext o => exact answer_tolerant verdict past (ho o rfl)
    · exact hvacant

end

abbrev landedSerde : Serde :=
  { sampleSerde with
    targetJson := fun t => .ok (toUtf8 t.id)
    outcomeJson := fun _ => .ok [] }

/-- Every step is new, and nothing is stored yet. -/
def freshStore (_ : Trace (DriveAns Ans)) : (o : StoreOp) → Except Text o.Res
  | .getRun _ => .ok none
  | .step _ id => .ok (some ⟨id, "target", [], .pending, none, 0⟩)
  | .readArtifact _ _ => .ok none
  | .insertRun _ => .ok ()
  | .openRun _ => .ok ()
  | .setRunStatus _ _ => .ok ()
  | .recordStep _ _ _ _ _ => .ok ()
  | .beginStep _ _ => .ok ()
  | .finishStep _ _ _ _ => .ok ()
  | .writeArtifact _ _ _ => .ok ()
  | .insertArtifact _ _ => .ok ()

/-- The provider always writes the same test, and every test passes. -/
def passingHost : SandboxHost (Trace (DriveAns Ans)) where
  provide := fun _ _ => .ok ⟨fence "ok"⟩
  overlayDir := fun _ _ => .ok "/o"
  openOverlay := fun _ _ => .ok "/o"
  execute := fun _ _ _ => .ok (result .passed)

def secondTarget : RankedTarget :=
  { sampleTarget with target := { sampleTarget.target with id := "t1", path := "src/b.rs" } }

/-- Targets driven on revisions that hold one file. -/
def driveOver (path : Text) (contents : Bytes) (ranked : List RankedTarget) :
    SandboxedDrive where
  revs := ⟨.ofEntries [⟨some path, .blob contents⟩], .ofEntries [⟨some path, .blob contents⟩]⟩
  host := passingHost
  store := freshStore
  driver := ⟨["rust"], fun _ => sampleContext, [], .default⟩
  run := sampleRunId
  configFp := []
  ranked := ranked

/-- Accepted paths of each target. -/
def acceptedPaths (r : Except OrchestratorError (List TargetOutcome) × Trace (DriveAns Ans)) :
    List (List Text) :=
  match r.1 with
  | .ok outcomes => outcomes.map fun out => out.accepted.map (·.path)
  | .error _ => []

/-- Where the test of the first target goes. -/
def samplePath : Text := "tests/jitgen_a_t0.rs"

/-- A test that is already there is accepted as a new file, and another file at its path ends the
drive before the second target. -/
theorem existing_path_breaks_drive :
    letI := asciiWords
    letI := noJson
    letI := landedSerde
    letI := hexDigest
    ¬ (driveOver samplePath (toUtf8 "ok") [sampleTarget]).NewPaths [] ∧
      ¬ (driveOver samplePath (toUtf8 "other") [sampleTarget, secondTarget]).NewPaths [] := by
  let _ := asciiWords
  let _ := noJson
  let _ := landedSerde
  let _ := hexDigest
  constructor
  · intro hnew
    let d := driveOver samplePath (toUtf8 "ok") [sampleTarget]
    have hrun : acceptedPaths (d.result []) = [[samplePath]] ∧
        (d.result []).2.all (fun e => match e.1 with
          | .store (.readArtifact _ _) => false
          | _ => true) = true := by decide +kernel
    obtain ⟨hpaths, hreads⟩ := hrun
    have hheld : ¬ d.revs.head.Vacant (segments samplePath) := by decide +kernel
    cases hres : (d.result []).1 with
    | error e => simp [acceptedPaths, hres] at hpaths
    | ok outcomes =>
      simp only [acceptedPaths, hres] at hpaths
      have hmem : [samplePath] ∈ outcomes.map fun out => out.accepted.map (·.path) := by
        rw [hpaths]
        exact List.mem_cons_self
      obtain ⟨out, hout, haccepted⟩ := List.mem_map.mp hmem
      rcases hnew.absent outcomes hres out hout with ⟨run, rel, bytes, hread, -⟩ | hvacant
      · exact absurd (List.all_eq_true.mp hreads _ hread) (by simp)
      · have hpath : samplePath ∈ out.accepted.map (·.path) := by
          rw [haccepted]
          exact List.mem_cons_self
        obtain ⟨a, ha, heq⟩ := List.mem_map.mp hpath
        exact hheld (heq ▸ hvacant a ha)
  · intro hnew
    let d := driveOver samplePath (toUtf8 "other") [sampleTarget, secondTarget]
    have hends : (d.result []).1.isOk = false := by decide +kernel
    have hgoes : (d.tolerated (result .failed) []).1.isOk = true := by decide +kernel
    rw [hnew.harmless (result .failed)] at hends
    exact Bool.noConfusion (hgoes.symm.trans hends)

/-- On revisions without the path the test is accepted, as a new file. -/
theorem drive_newPaths_of_other_files :
    letI := asciiWords
    letI := noJson
    letI := landedSerde
    letI := hexDigest
    let d := driveOver "src/a.rs" (toUtf8 "ok") [sampleTarget]
    acceptedPaths (d.result []) = [[samplePath]] ∧ d.NewPaths [] :=
  letI := asciiWords
  letI := noJson
  letI := landedSerde
  letI := hexDigest
  ⟨by decide +kernel,
    drive_newPaths (driveOver "src/a.rs" (toUtf8 "ok") [sampleTarget]) [] (by decide +kernel)⟩

end Jitgen
