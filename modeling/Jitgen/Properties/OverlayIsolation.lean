import Jitgen.Framework.Leases
import Jitgen.Orchestrator.OverlayDirs

/-!
# Executions do not disturb each other

However executors interleave, every run of tests sees the files of its own variant and candidate and
nothing else, what stood before stays as it was, and a directory is left only where it could not be
removed.
-/

namespace Jitgen

open Text

/-- A directory is held from its creation to its removal. -/
def overlayLeases : Leases OverlayAns OverlayChoice OverlayStore Text Overlay where
  entry := fun s dir => s.dirs dir
  taken := fun e =>
    match e with
    | ⟨.createDir dir, .ok ()⟩ => some dir
    | _ => none
  given := fun e =>
    match e.1 with
    | .removeDirAll dir => some dir
    | _ => none
  leaves := fun c => c.leaves = true

abbrev OverlayWorld (ι : Type) := World ι OverlayAns OverlayChoice OverlayStore

section

variable [Digest]

namespace OverlayExecutor

/-- The run of tests that an operation is due, in a fresh directory of the executor. -/
inductive Due (x : OverlayExecutor) : PipelineOp → OverlayRun → Prop
  | candidate (candidate : TestCandidate) (v : Variant) (nonce : Nat) (root : Text)
      (o o' : Overlay) (test : MaterializedTest) (command : TestCommand)
      (hpopulate : populateOverlay x.revs v .empty = .ok o)
      (hmaterialize : Materialize.materialize root o candidate = .ok (test, o'))
      (hcommand : x.command = some command) :
      Due x (.runCandidate candidate v) ⟨x.overlayDir v (some candidate) nonce,
        x.request command root (x.overlayDir v (some candidate) nonce), o'⟩
  | existing (v : Variant) (nonce : Nat) (o : Overlay) (command : TestCommand)
      (hpopulate : populateOverlay x.revs v .empty = .ok o)
      (hcommand : x.command = some command) :
      Due x (.runExisting v) ⟨x.overlayDir v none nonce,
        x.request command (x.overlayDir v none nonce) (x.overlayDir v none nonce), o⟩

end OverlayExecutor

/-- The operation that an executor was asked for last, and its own operations since. -/
def sinceAsked : List (Event OverlayAns) → Option (PipelineOp × List (Event OverlayAns))
  | [] => none
  | ⟨.asked op, _⟩ :: _ => some (op, [])
  | e :: h => (sinceAsked h).map fun r => (r.1, e :: r.2)

/-- The directory is created. -/
def created (dir : Text) : Event OverlayAns := ⟨.createDir dir, .ok ()⟩

/-- The directory is opened at its canonical path. -/
def opened (dir root : Text) : Event OverlayAns := ⟨.work dir .openOverlay, .ok root⟩

variable {ι : Type} [DecidableEq ι] (x : ι → OverlayExecutor) (base : OverlayStore)

/-- The executor ran these tests for the operation that it was serving then, in a directory that it
had made for it and still held. -/
structure ServedRun (i : ι) (op : PipelineOp) (l : OverlayRun)
    (history : List (Entry ι OverlayAns OverlayChoice)) : Prop where
  due : (x i).Due op l
  launched : ∃ later c r earlier since,
    history = later ++ ⟨i, c, ⟨.work l.dir (.run l.req), r⟩⟩ :: earlier ∧
      sinceAsked (ownEvents i earlier) = some (op, since) ∧
      overlayLeases.Holds i l.dir earlier ∧ created l.dir ∈ since ∧
      (l.req.overlayRoot = l.dir ∨ opened l.dir l.req.overlayRoot ∈ since)

/-- Every run so far was for an operation, in a directory that was not there at the start. -/
def RunsDue (w : OverlayWorld ι) : Prop :=
  ∀ l ∈ w.state.launches, base.dirs l.dir = none ∧ ∃ i op, ServedRun x i op l w.history

abbrev overlayContract (i : ι) : Contract ι OverlayAns OverlayChoice OverlayStore :=
  overlayLeases.contract base (RunsDue x base) i

variable {x base} {i : ι} {w w' : OverlayWorld ι} {c : OverlayChoice} {dir : Text} {o o' : Overlay}
  {op : PipelineOp} {done done' : List (Event OverlayAns)}

theorem ServedRun.cons {l : OverlayRun} {history : List (Entry ι OverlayAns OverlayChoice)}
    (h : ServedRun x i op l history) (e : Entry ι OverlayAns OverlayChoice) :
    ServedRun x i op l (e :: history) := by
  obtain ⟨later, c, r, earlier, since, rfl, hlaunched⟩ := h.launched
  exact ⟨h.due, e :: later, c, r, earlier, since, rfl, hlaunched⟩

theorem RunsDue.keep {o : OverlayOp}
    (h : (OverlayStore.handle c o w.state).2.launches = w.state.launches) (hw : RunsDue x base w) :
    RunsDue x base (w.perform OverlayStore.handle i c o).2 := by
  intro l hl
  have hl' : l ∈ (OverlayStore.handle c o w.state).2.launches := hl
  rw [h] at hl'
  obtain ⟨hbase, j, op, hserved⟩ := hw l hl'
  exact ⟨hbase, j, op, hserved.cons _⟩

private theorem createDir_cases (c : OverlayChoice) (dir : Text) (s : OverlayStore) :
    (∃ e, OverlayStore.handle c (.createDir dir) s = (.error e, s)) ∨
      (s.dirs dir = none ∧
        OverlayStore.handle c (.createDir dir) s = (.ok (), s.set dir (some .empty))) := by
  simp only [OverlayStore.handle]
  cases c.errno with
  | some e => exact .inl ⟨e, rfl⟩
  | none =>
    cases hdir : s.dirs dir with
    | some o => exact .inl ⟨.alreadyExists, rfl⟩
    | none => exact .inr ⟨rfl, rfl⟩

omit [DecidableEq ι] in
private theorem step_createDir : overlayLeases.Step OverlayStore.handle i c (.createDir dir) w := by
  rcases createDir_cases c dir w.state with ⟨e, he⟩ | ⟨hfree, hok⟩
  · apply Leases.Step.still
    · rw [he]
      intro d
      rfl
    · rw [he]
      rfl
    · rfl
  · apply Leases.Step.single dir
    · rw [hok]
      intro d hd
      exact OverlayStore.set_other _ _ hd
    · rw [hok]
      intro d hd
      cases hd
      exact ⟨rfl, hfree, by simp [overlayLeases]⟩
    · intro d hd
      cases hd
    · intro _ _
      rw [hok]
      simp [overlayLeases]
    · left
      rw [hok]
      rfl

private theorem work_dirs (c : OverlayChoice) (job : OverlayJob) (s : OverlayStore) :
    (∀ d, d ≠ dir → (s.work c dir job).2.dirs d = s.dirs d) ∧
      (s.dirs dir ≠ none → (s.work c dir job).2.dirs dir ≠ none) := by
  unfold OverlayStore.work
  split
  · rename_i hgone
    exact ⟨fun _ _ => rfl, fun h => absurd hgone h⟩
  · split
    · exact ⟨fun d hd => OverlayStore.set_other _ _ hd, fun _ => by simp⟩
    · exact ⟨fun d hd => OverlayStore.set_other s _ hd, fun _ => by
        show (s.set dir _).dirs dir ≠ none
        simp⟩

omit [DecidableEq ι] in
private theorem step_work {job : OverlayJob} (hheld : overlayLeases.Holds i dir w.history) :
    overlayLeases.Step OverlayStore.handle i c (.work dir job) w := by
  obtain ⟨hother, hstands⟩ := @work_dirs _ dir c job w.state
  apply Leases.Step.single dir
  · exact hother
  · intro d hd
    cases hd
  · intro d hd
    cases hd
  · intro hdir _
    exact hstands hdir
  · exact .inr hheld

omit [DecidableEq ι] in
private theorem step_removeDirAll (hheld : overlayLeases.Holds i dir w.history) :
    overlayLeases.Step OverlayStore.handle i c (.removeDirAll dir) w := by
  cases hdir : w.state.dirs dir with
  | none =>
    have hstate : (OverlayStore.handle c (.removeDirAll dir) w.state).2 = w.state := by
      simp [OverlayStore.handle, hdir]
    apply Leases.Step.single dir
    · rw [hstate]
      intro d _
      rfl
    · intro d hd
      cases hd
    · intro d hd
      cases hd
      refine ⟨rfl, hheld, fun _ => ?_⟩
      rw [hstate]
      exact hdir
    · intro _ hnot
      exact absurd rfl hnot
    · exact .inr hheld
  | some o =>
    have hstate : (OverlayStore.handle c (.removeDirAll dir) w.state).2 =
        w.state.set dir (if c.leaves then some c.debris else none) := by
      simp [OverlayStore.handle, hdir]
    apply Leases.Step.single dir
    · rw [hstate]
      intro d hd
      exact OverlayStore.set_other _ _ hd
    · intro d hd
      cases hd
    · intro d hd
      cases hd
      refine ⟨rfl, hheld, fun hleaves => ?_⟩
      have hfalse : ¬ c.leaves = true := hleaves
      rw [hstate]
      show (w.state.set dir _).dirs dir = none
      simp [hfalse]
    · intro _ hnot
      exact absurd rfl hnot
    · exact .inr hheld

variable {α β : Type}

/-- The executor serves the operation, and `done` has been done for it. -/
def Serving (i : ι) (op : PipelineOp) (done : List (Event OverlayAns)) (w : OverlayWorld ι) :
    Prop :=
  ∃ since, sinceAsked (ownEvents i w.history) = some (op, since) ∧ done ⊆ since

section

omit [Digest]

private theorem Serving.weaken (h : Serving i op done w) (hdone : done' ⊆ done) :
    Serving i op done' w := by
  obtain ⟨since, hsince, hall⟩ := h
  exact ⟨since, hsince, List.Subset.trans hdone hall⟩

theorem Serving.rely {J : OverlayWorld ι → Prop} (h : Serving i op done w)
    (hw : (overlayLeases.contract base J i).rely w w') : Serving i op done w' := by
  obtain ⟨since, hsince, hall⟩ := h
  exact ⟨since, by rw [hw.1, hsince], hall⟩

end

theorem Serving.perform {o : OverlayOp} (h : Serving i op done w) (ho : ∀ op', o ≠ .asked op') :
    Serving i op (⟨o, (OverlayStore.handle c o w.state).1⟩ :: done)
      (w.perform OverlayStore.handle i c o).2 := by
  obtain ⟨since, hsince, hall⟩ := h
  refine ⟨⟨o, (OverlayStore.handle c o w.state).1⟩ :: since, ?_, List.cons_subset_cons _ hall⟩
  rw [ownEvents_perform]
  cases o with
  | asked op' => exact absurd rfl (ho op')
  | _ => simp only [sinceAsked, hsince, Option.map_some]

/-- The executor serves the operation and holds nothing. -/
def Idle (i : ι) (op : PipelineOp) (w : OverlayWorld ι) : Prop :=
  overlayLeases.Free i w ∧ Serving i op [] w

/-- The executor serves the operation and holds the one directory. -/
def AtWork (i : ι) (op : PipelineOp) (done : List (Event OverlayAns)) (dir : Text) (o : Overlay)
    (w : OverlayWorld ι) : Prop :=
  overlayLeases.Has i dir o w ∧ Serving i op done w

section

omit [Digest]

variable {J : OverlayWorld ι → Prop}

theorem Idle.rely (h : Idle i op w) (hw : (overlayLeases.contract base J i).rely w w') :
    Idle i op w' :=
  ⟨Leases.Free.rely h.1 hw, h.2.rely hw⟩

theorem AtWork.rely (h : AtWork i op done dir o w)
    (hw : (overlayLeases.contract base J i).rely w w') : AtWork i op done dir o w' :=
  ⟨h.1.rely hw, h.2.rely hw⟩

end

/-- The program holds the one directory; on success what is in it, the result and what was done are
as `Q` says. -/
def Fills (i : ι) (op : PipelineOp) (dir : Text)
    (Q : α → Overlay → List (Event OverlayAns) → Prop) : Except ExecError α → OverlayWorld ι → Prop
  | .ok a, w => ∃ o done, Q a o done ∧ AtWork i op done dir o w
  | .error _, w => ∃ o done, AtWork i op done dir o w

variable {Q R : α → Overlay → List (Event OverlayAns) → Prop}

section

omit [Digest]

variable {J : OverlayWorld ι → Prop}

theorem Fills.standing {r : Except ExecError α} (h : Fills i op dir Q r w) :
    ∃ o done, AtWork i op done dir o w := by
  cases r with
  | ok a =>
    obtain ⟨o, done, -, ho⟩ := h
    exact ⟨o, done, ho⟩
  | error e => exact h

theorem Fills.rely {r : Except ExecError α} (h : Fills i op dir Q r w)
    (hw : (overlayLeases.contract base J i).rely w w') : Fills i op dir Q r w' := by
  cases r with
  | ok a =>
    obtain ⟨o, done, hQ, ho⟩ := h
    exact ⟨o, done, hQ, ho.rely hw⟩
  | error e =>
    obtain ⟨o, done, ho⟩ := h
    exact ⟨o, done, ho.rely hw⟩

theorem Fills.mono {r : Except ExecError α} (h : Fills i op dir R r w)
    (hR : ∀ a o done, R a o done → Q a o done) : Fills i op dir Q r w := by
  cases r with
  | ok a =>
    obtain ⟨o, done, ho, hhas⟩ := h
    exact ⟨o, done, hR a o done ho, hhas⟩
  | error e => exact h

end

/-- A program that works in the directory. -/
abbrev OverlayProg.Fills (x : ι → OverlayExecutor) (base : OverlayStore) (i : ι) (op : PipelineOp)
    (dir : Text) (Q : α → Overlay → List (Event OverlayAns) → Prop) (p : OverlayProg α)
    (w : OverlayWorld ι) : Prop :=
  Fallible.Meets OverlayStore.handle i (overlayContract x base i) (Jitgen.Fills i op dir Q) p w

private theorem fills_pure {a : α} (hQ : Q a o done) (hw : AtWork i op done dir o w) :
    (pure a : OverlayProg α).Fills x base i op dir Q w := by
  apply Fallible.meets_pure
  intro w' hrely
  exact ⟨o, done, hQ, hw.rely hrely⟩

private theorem fills_throw {e : ExecError} (hw : AtWork i op done dir o w) :
    (throw e : OverlayProg α).Fills x base i op dir Q w := by
  apply Fallible.meets_throw
  intro w' hrely
  exact ⟨o, done, hw.rely hrely⟩

private theorem fills_bind {p : OverlayProg α} {f : α → OverlayProg β}
    {Q : β → Overlay → List (Event OverlayAns) → Prop} (hp : p.Fills x base i op dir R w)
    (hf : ∀ a o done w, R a o done → AtWork i op done dir o w →
      (f a).Fills x base i op dir Q w) : (p >>= f).Fills x base i op dir Q w := by
  apply Fallible.meets_bind hp
  · rintro e w w' ⟨o, done, ho⟩ hrely
    exact ⟨o, done, ho.rely hrely⟩
  · rintro a w ⟨o, done, hR, ho⟩
    exact hf a o done w hR ho

/-- What a run of tests needs: it is due, in a directory made for it, at a root that is the
directory's. -/
def Launchable (y : OverlayExecutor) (op : PipelineOp) (done : List (Event OverlayAns))
    (l : OverlayRun) : Prop :=
  y.Due op l ∧ created l.dir ∈ done ∧
    (l.req.overlayRoot = l.dir ∨ opened l.dir l.req.overlayRoot ∈ done)

/-- A job keeps the directory, and keeps the account of the runs if a run is due. -/
private theorem guarantee_work {job : OverlayJob}
    (hdue : ∀ l ∈ job.launches dir o, Launchable (x i) op done l) (hw : AtWork i op done dir o w) :
    (overlayContract x base i).guarantee (.work dir job) w
      (w.perform OverlayStore.handle i c (.work dir job)).2 := by
  obtain ⟨hhas, since, hsince, hall⟩ := hw
  apply (step_work hhas.holds).guarantee
  intro hsound hruns
  have hlog : (OverlayStore.work c dir job w.state).2.launches = w.state.launches ∨
      (OverlayStore.work c dir job w.state).2.launches =
        job.launches dir o ++ w.state.launches := by
    have hdir : w.state.dirs dir = some o := hhas.2
    unfold OverlayStore.work
    rw [hdir]
    cases c.fault with
    | some e => exact .inl rfl
    | none => exact .inr rfl
  rcases hlog with hsame | hmore
  · exact hruns.keep hsame
  intro l hl
  have hl' : l ∈ (OverlayStore.work c dir job w.state).2.launches := hl
  rw [hmore] at hl'
  rcases List.mem_append.mp hl' with hnew | hold
  · obtain ⟨hop, hmade, hroot⟩ := hdue l hnew
    have hbase : base.dirs dir = none := (hsound.standing i dir hhas.holds).2
    cases job with
    | run req =>
      obtain rfl := List.mem_singleton.mp hnew
      exact ⟨hbase, i, op, hop, [], c, _, w.history, since, rfl, hsince, hhas.holds,
        hall hmade, hroot.imp_right fun h => hall h⟩
    | _ => cases hnew
  · obtain ⟨hbase, j, op', hserved⟩ := hruns l hold
    exact ⟨hbase, j, op', hserved.cons _⟩

private theorem fills_workIn {job : OverlayJob}
    (hdue : ∀ l ∈ job.launches dir o, Launchable (x i) op done l) (hw : AtWork i op done dir o w) :
    (workIn dir job).Fills x base i op dir (fun a o' done' =>
      (∃ c, job.perform c dir o = (.ok a, o')) ∧ done' = ⟨.work dir job, .ok a⟩ :: done) w := by
  apply Fallible.meets_attempt
  intro w₁ hrely c
  have hworking := hw.rely hrely
  have hhas := hworking.1
  refine ⟨guarantee_work hdue hworking, fun w₂ hrely' => ?_⟩
  apply Fills.rely _ hrely'
  have hdir : w₁.state.dirs dir = some o := hhas.2
  have hheld : ∀ d, overlayLeases.Holds i d
      (w₁.perform OverlayStore.handle i c (.work dir job)).2.history ↔ d = dir := fun d =>
    (Leases.holds_perform_neutral rfl rfl).trans (hhas.1 d)
  have hserving := hworking.2.perform (c := c) (o := .work dir job) (by simp)
  rw [World.perform_fst]
  simp only [OverlayStore.handle, OverlayStore.work, hdir] at hserving ⊢
  cases hfault : c.fault with
  | some e =>
    refine ⟨c.debris, done, ⟨hheld, ?_⟩, hserving.weaken (List.subset_cons_self _ _)⟩
    show (OverlayStore.work c dir job w₁.state).2.dirs dir = some c.debris
    simp [OverlayStore.work, hdir, hfault]
  | none =>
    have hafter : overlayLeases.Has i dir (job.perform c dir o).2
        (w₁.perform OverlayStore.handle i c (.work dir job)).2 := by
      refine ⟨hheld, ?_⟩
      show (OverlayStore.work c dir job w₁.state).2.dirs dir = some (job.perform c dir o).2
      simp only [OverlayStore.work, hdir, hfault]
      exact OverlayStore.set_same _ _ _
    rw [hfault] at hserving
    dsimp only at hserving ⊢
    cases hjob : (job.perform c dir o).1 with
    | error e => exact ⟨_, done, hafter, hserving.weaken (List.subset_cons_self _ _)⟩
    | ok a =>
      rw [hjob] at hserving
      refine ⟨_, _, ⟨⟨c, ?_⟩, rfl⟩, hafter, hserving⟩
      rw [← hjob]

private theorem fills_checkout {t : GitTree} (hw : AtWork i op done dir o w) :
    (workIn dir (.checkout t)).Fills x base i op dir
      (fun _ o' done' => checkoutRevision t o = .ok o' ∧ done ⊆ done') w := by
  apply (fills_workIn (by simp [OverlayJob.launches]) hw).mono
  intro r w' h
  apply h.mono
  rintro a o' _ ⟨⟨c, hc⟩, rfl⟩
  refine ⟨?_, List.subset_cons_self _ _⟩
  simp only [OverlayJob.perform] at hc
  split at hc <;> simp_all

private theorem fills_readFile {path : Text} (hw : AtWork i op done dir o w) :
    (workIn dir (.readFile path)).Fills x base i op dir
      (fun found o' done' => readOverlayFile o path = .ok found ∧ o' = o ∧ done ⊆ done') w := by
  apply (fills_workIn (by simp [OverlayJob.launches]) hw).mono
  intro r w' h
  apply h.mono
  rintro a o' _ ⟨⟨c, hc⟩, rfl⟩
  rw [← and_assoc]
  refine ⟨?_, List.subset_cons_self _ _⟩
  simp only [OverlayJob.perform] at hc
  split at hc <;> simp_all

private theorem fills_writeFile {path : Text} {bytes : Bytes} (hw : AtWork i op done dir o w) :
    (workIn dir (.writeFile path bytes)).Fills x base i op dir
      (fun _ o' done' => writeFile o path bytes = .ok o' ∧ done ⊆ done') w := by
  apply (fills_workIn (by simp [OverlayJob.launches]) hw).mono
  intro r w' h
  apply h.mono
  rintro a o' _ ⟨⟨c, hc⟩, rfl⟩
  refine ⟨?_, List.subset_cons_self _ _⟩
  simp only [OverlayJob.perform] at hc
  split at hc <;> simp_all

/-- What fills a directory is what the variant comes to on an empty one. -/
private theorem fills_populate (y : OverlayExecutor) (v : Variant)
    (hw : AtWork i op done dir .empty w) :
    (y.populate dir v).Fills x base i op dir
      (fun _ o done' => populateOverlay y.revs v .empty = .ok o ∧ done ⊆ done') w := by
  cases v with
  | base =>
    apply (fills_checkout hw).mono
    intro r w' h
    apply h.mono
    rintro _ o _ ⟨ho, hdone⟩
    exact ⟨by simp [populateOverlay, ho, Except.mapError], hdone⟩
  | head =>
    apply (fills_checkout hw).mono
    intro r w' h
    apply h.mono
    rintro _ o _ ⟨ho, hdone⟩
    exact ⟨by simp [populateOverlay, ho, Except.mapError], hdone⟩
  | mutant m =>
    apply fills_bind (fills_checkout hw)
    rintro _ o done₁ w ⟨hcheckout, hdone₁⟩ hhas
    apply fills_bind (fills_readFile hhas)
    rintro found _ done₂ w ⟨hread, rfl, hdone₂⟩ hhas
    cases found with
    | none => exact fills_throw hhas
    | some original =>
      dsimp only
      cases hutf : fromUtf8 original with
      | none => exact fills_throw hhas
      | some original =>
        dsimp only
        cases hdiff : PatchApply.applyUnifiedDiff original m.diff with
        | error e => exact fills_throw hhas
        | ok mutated =>
          apply (fills_writeFile hhas).mono
          intro r w' h
          apply h.mono
          rintro _ o' _ ⟨hwrite, hdone₃⟩
          refine ⟨?_, List.Subset.trans hdone₁ (List.Subset.trans hdone₂ hdone₃)⟩
          simp [populateOverlay, mutateOverlay, hcheckout, hread, hutf, hdiff, hwrite,
            Except.mapError, bind, Except.bind]

/-- A directory that is given back. -/
private theorem meets_removeDirAll (hw : AtWork i op done dir o w) :
    (removeDirAll dir).Meets OverlayStore.handle i (overlayContract x base i)
      (fun r w => r = .ok () ∧ Idle i op w) w := by
  apply Fallible.meets_ask
  intro w₁ hrely c
  have hworking := hw.rely hrely
  have hhas := hworking.1
  constructor
  · apply (step_removeDirAll hhas.holds).guarantee
    intro _ hruns
    apply hruns.keep
    simp only [OverlayStore.handle]
    cases w₁.state.dirs dir <;> rfl
  · intro w₂ hrely'
    refine ⟨rfl, Idle.rely ⟨?_, ?_⟩ hrely'⟩
    · intro d hd
      rcases Leases.holds_perform.mp hd with ⟨-, htaken⟩ | ⟨hd, hkeeps⟩
      · cases htaken
      · obtain rfl := (hhas.1 d).mp hd
        exact hkeeps ⟨rfl, rfl⟩
    · exact (hworking.2.perform (by simp)).weaken (List.nil_subset _)

private theorem meets_guardOverlay {p : OverlayProg α} (hp : p.Fills x base i op dir Q w) :
    (guardOverlay dir p).Meets OverlayStore.handle i (overlayContract x base i)
      (fun _ w => Idle i op w) w := by
  apply Fallible.meets_capture_bind hp
  intro r w hr
  obtain ⟨o, done, ho⟩ := hr.standing
  apply Fallible.meets_bind (meets_removeDirAll ho)
  · rintro e w w' ⟨hr', -⟩ _
    cases hr'
  · rintro a w ⟨-, hidle⟩
    apply Fallible.meets_ofExcept
    intro w' hrely
    exact hidle.rely hrely

/-- What the allocation of a directory ends with. -/
def Allocated (i : ι) (op : PipelineOp) (y : OverlayExecutor) (v : Variant)
    (candidate : Option TestCandidate) : Except ExecError Text → OverlayWorld ι → Prop
  | .ok dir, w => ∃ nonce o done, dir = y.overlayDir v candidate nonce ∧
      populateOverlay y.revs v .empty = .ok o ∧ created dir ∈ done ∧ AtWork i op done dir o w
  | .error _, w => Idle i op w

theorem Allocated.rely {y : OverlayExecutor} {v : Variant} {candidate : Option TestCandidate}
    {r : Except ExecError Text} (h : Allocated i op y v candidate r w)
    (hw : (overlayContract x base i).rely w w') : Allocated i op y v candidate r w' := by
  cases r with
  | ok dir =>
    obtain ⟨nonce, o, done, hdir, hpopulate, hmade, hworking⟩ := h
    exact ⟨nonce, o, done, hdir, hpopulate, hmade, hworking.rely hw⟩
  | error e => exact Idle.rely h hw

private theorem meets_nextNonce {process : Nat} (hw : Idle i op w) :
    (askOverlay (.nextNonce process)).Meets OverlayStore.handle i (overlayContract x base i)
      (fun r w => (∃ n : Nat, r = .ok n) ∧ Idle i op w) w := by
  apply Fallible.meets_ask
  intro w₁ hrely c
  have hidle := hw.rely hrely
  constructor
  · apply (Leases.Step.still (fun _ => rfl) rfl rfl).guarantee
    exact fun _ hruns => hruns.keep rfl
  · intro w₂ hrely'
    refine ⟨⟨_, rfl⟩, Idle.rely ⟨?_, ?_⟩ hrely'⟩
    · intro d hd
      exact hidle.1 d ((Leases.holds_perform_neutral rfl rfl).mp hd)
    · exact (hidle.2.perform (by simp)).weaken (List.nil_subset _)

/-- A directory is made where none was, or nothing happens. -/
private theorem meets_createDir (hw : Idle i op w) :
    (askOverlay (.createDir dir)).Meets OverlayStore.handle i (overlayContract x base i)
      (fun r w => (r = .ok (.ok ()) ∧ AtWork i op [created dir] dir .empty w) ∨
        ((∃ e, r = .ok (.error e)) ∧ Idle i op w)) w := by
  apply Fallible.meets_ask
  intro w₁ hrely c
  have hidle := hw.rely hrely
  have hserving := hidle.2.perform (c := c) (o := .createDir dir) (by simp)
  constructor
  · apply step_createDir.guarantee
    intro _ hruns
    apply hruns.keep
    rcases createDir_cases c dir w₁.state with ⟨e, he⟩ | ⟨-, hok⟩
    · rw [he]
    · rw [hok]
      rfl
  · intro w₂ hrely'
    rw [World.perform_fst]
    rcases createDir_cases c dir w₁.state with ⟨e, he⟩ | ⟨-, hok⟩
    · right
      rw [he]
      refine ⟨⟨e, rfl⟩, Idle.rely ⟨?_, hserving.weaken (List.nil_subset _)⟩ hrely'⟩
      intro d hd
      rcases Leases.holds_perform.mp hd with ⟨-, htaken⟩ | ⟨hd, -⟩
      · rw [he] at htaken
        cases htaken
      · exact hidle.1 d hd
    · left
      rw [hok] at hserving ⊢
      refine ⟨rfl, AtWork.rely ⟨⟨fun d => ?_, ?_⟩, hserving⟩ hrely'⟩
      · rw [Leases.holds_perform, hok]
        constructor
        · rintro (⟨-, htaken⟩ | ⟨hd, -⟩)
          · cases htaken
            rfl
          · exact absurd hd (hidle.1 d)
        · intro heq
          rw [heq]
          exact .inl ⟨rfl, rfl⟩
      · rw [World.perform_state, hok]
        exact OverlayStore.set_same _ _ _

private theorem meets_freshOverlay (y : OverlayExecutor) (v : Variant)
    (candidate : Option TestCandidate) (attempts : Nat) (hw : Idle i op w) :
    (y.freshOverlay v candidate attempts).Meets OverlayStore.handle i (overlayContract x base i)
      (Allocated i op y v candidate) w := by
  induction attempts generalizing w with
  | zero =>
    apply Fallible.meets_throw
    intro w' hrely
    exact hw.rely hrely
  | succ attempts ih =>
    apply Fallible.meets_bind (meets_nextNonce hw)
    · rintro e w w' ⟨⟨n, hn⟩, -⟩ _
      cases hn
    rintro nonce w ⟨-, hidle⟩
    apply Fallible.meets_bind (meets_createDir hidle)
    · rintro e w w' (⟨hr, -⟩ | ⟨⟨e', hr⟩, -⟩) _ <;> cases hr
    rintro made w (⟨hmade, hworking⟩ | ⟨⟨e, hmade⟩, hidle⟩)
    · cases hmade
      apply Fallible.meets_capture_bind (fills_populate y v hworking)
      intro r w hr
      cases r with
      | ok a =>
        obtain ⟨o, done, ⟨hpopulate, hdone⟩, hworking⟩ := hr
        apply Fallible.meets_pure
        intro w' hrely
        exact Allocated.rely (r := .ok _) ⟨nonce, o, done, rfl, hpopulate,
          hdone (List.mem_singleton.mpr rfl), hworking⟩ hrely
      | error e =>
        obtain ⟨o, done, hworking⟩ := hr
        apply Fallible.meets_bind (meets_removeDirAll hworking)
        · rintro e w w' ⟨hr, -⟩ _
          cases hr
        · rintro a w ⟨-, hidle⟩
          apply Fallible.meets_throw
          intro w' hrely
          exact hidle.rely hrely
    · cases hmade
      have hthrow : (throw ⟨e.display⟩ : OverlayProg Text).Meets OverlayStore.handle i
          (overlayContract x base i) (Allocated i op y v candidate) w := by
        apply Fallible.meets_throw
        intro w' hrely
        exact hidle.rely hrely
      cases e with
      | alreadyExists => exact ih hidle
      | _ => exact hthrow

private theorem fills_openOverlay (hw : AtWork i op done dir o w) :
    (workIn dir .openOverlay).Fills x base i op dir
      (fun root o' done' => o' = o ∧ done' = opened dir root :: done) w := by
  apply (fills_workIn (by simp [OverlayJob.launches]) hw).mono
  intro r w' h
  apply h.mono
  rintro root o' _ ⟨⟨c, hc⟩, rfl⟩
  exact ⟨(congrArg Prod.snd hc).symm, rfl⟩

private theorem fills_materialize {root : Text} {candidate : TestCandidate}
    (hw : AtWork i op done dir o w) :
    (workIn dir (.materialize root candidate)).Fills x base i op dir
      (fun _ o' done' => (∃ test, Materialize.materialize root o candidate = .ok (test, o')) ∧
        done ⊆ done') w := by
  apply (fills_workIn (by simp [OverlayJob.launches]) hw).mono
  intro r w' h
  apply h.mono
  rintro _ o' _ ⟨⟨c, hc⟩, rfl⟩
  refine ⟨?_, List.subset_cons_self _ _⟩
  simp only [OverlayJob.perform] at hc
  split at hc
  · rename_i test o₁ hok
    cases hc
    exact ⟨test, hok⟩
  · cases hc

private theorem fills_testCommand (y : OverlayExecutor) (hw : AtWork i op done dir o w) :
    y.testCommand.Fills x base i op dir
      (fun command o' done' => y.command = some command ∧ o' = o ∧ done' = done) w := by
  unfold OverlayExecutor.testCommand
  cases hcommand : y.command with
  | none => exact fills_throw hw
  | some command => exact fills_pure ⟨rfl, rfl, rfl⟩ hw

private theorem fills_run {req : RunRequest} (hdue : Launchable (x i) op done ⟨dir, req, o⟩)
    (hw : AtWork i op done dir o w) :
    (workIn dir (.run req)).Fills x base i op dir (fun _ _ _ => True) w := by
  apply (fills_workIn _ hw).mono
  · intro r w' h
    exact h.mono fun _ _ _ _ => trivial
  · intro l hl
    rw [List.mem_singleton.mp hl]
    exact hdue

/-- What an executor does when it is asked for an operation. -/
private theorem safe_answer (op : PipelineOp) (hw : Idle i op w) :
    ((x i).answer op).Safe OverlayStore.handle i (overlayContract x base i)
      (fun _ w => Idle i op w) w := by
  cases op with
  | generate req =>
    intro w₁ hrely c
    have hidle := hw.rely hrely
    constructor
    · apply (Leases.Step.still (fun _ => rfl) rfl rfl).guarantee
      exact fun _ hruns => hruns.keep rfl
    · intro w₂ hrely'
      refine Idle.rely ⟨?_, ?_⟩ hrely'
      · intro d hd
        exact hidle.1 d ((Leases.holds_perform_neutral rfl rfl).mp hd)
      · exact (hidle.2.perform (by simp)).weaken (List.nil_subset _)
  | runCandidate candidate v =>
    apply Fallible.meets_bind (meets_freshOverlay (x i) v (some candidate) _ hw)
    · intro e w w' hidle hrely
      exact Idle.rely hidle hrely
    rintro dir w ⟨nonce, o, done, rfl, hpopulate, hmade, hworking⟩
    apply meets_guardOverlay (Q := fun _ _ _ => True)
    apply fills_bind (fills_openOverlay hworking)
    rintro root _ _ w ⟨rfl, rfl⟩ hworking
    apply fills_bind (fills_materialize hworking)
    rintro _ o' done' w ⟨⟨test, hmaterialize⟩, hdone⟩ hworking
    apply fills_bind (fills_testCommand (x i) hworking)
    rintro command _ _ w ⟨hcommand, rfl, rfl⟩ hworking
    refine fills_run ⟨?_, hdone (List.mem_cons_of_mem _ hmade), ?_⟩ hworking
    · exact .candidate candidate v nonce root _ _ test command hpopulate hmaterialize hcommand
    · exact .inr (hdone List.mem_cons_self)
  | runExisting v =>
    apply Fallible.meets_bind (meets_freshOverlay (x i) v none _ hw)
    · intro e w w' hidle hrely
      exact Idle.rely hidle hrely
    rintro dir w ⟨nonce, o, done, rfl, hpopulate, hmade, hworking⟩
    apply meets_guardOverlay (Q := fun _ _ _ => True)
    apply fills_bind (fills_testCommand (x i) hworking)
    rintro command _ _ w ⟨hcommand, rfl, rfl⟩ hworking
    exact fills_run ⟨.existing v nonce _ command hpopulate hcommand, hmade, .inl rfl⟩ hworking

theorem safe_serve (op : PipelineOp) (hw : overlayLeases.Free i w) :
    ((x i).serve op).Safe OverlayStore.handle i (overlayContract x base i)
      (fun _ w => overlayLeases.Free i w) w := by
  have hasked : Prog.Safe OverlayStore.handle i (overlayContract x base i)
      (fun _ w => Idle i op w) (Prog.ask (OverlayOp.asked op)) w := by
    intro w₁ hrely c
    constructor
    · apply (Leases.Step.still (fun _ => rfl) rfl rfl).guarantee
      exact fun _ hruns => hruns.keep rfl
    · intro w₂ hrely'
      refine Idle.rely ⟨?_, [], ?_, List.nil_subset _⟩ hrely'
      · intro d hd
        exact hw.rely hrely d ((Leases.holds_perform_neutral rfl rfl).mp hd)
      · rw [ownEvents_perform]
        rfl
  apply Prog.safe_bind hasked
  intro _ w hidle
  exact (safe_answer op hidle).mono fun _ _ h => h.1

abbrev ExecutorPool (ι α : Type) := Pool ι OverlayAns OverlayChoice OverlayStore α

/-- Every executor is about to serve its client. -/
def startExecutors (x : ι → OverlayExecutor) (clients : ι → Prog Ans α) (base : OverlayStore) :
    ExecutorPool ι α :=
  ⟨fun i => some ((clients i).serve (x i).serve), ⟨base, []⟩⟩

theorem executors_safe (x : ι → OverlayExecutor) (clients : ι → Prog Ans α) {base : OverlayStore}
    (hbase : base.launches = []) (moves : List (Move ι OverlayChoice)) :
    ((startExecutors x clients base).run OverlayStore.handle moves).Safe OverlayStore.handle
      (overlayContract x base) (fun i _ w => overlayLeases.Free i w)
      (fun w => overlayLeases.Sound base w ∧ RunsDue x base w) := by
  apply Pool.Safe.run_of_coexist
  · apply Pool.Safe.start
    · intro i q hq
      cases hq
      apply Prog.safe_serve (Q := overlayLeases.Free i)
      · exact fun w w' hrely hfree => Leases.Free.rely hfree hrely
      · exact fun op w hfree => safe_serve op hfree
      · exact fun _ h => h
    · refine ⟨Leases.Sound.start base, fun l hl => ?_⟩
      have hl' : l ∈ base.launches := hl
      rw [hbase] at hl'
      cases hl'
  · apply Leases.coexist
    exact fun i _ w w' hrely hfree => Leases.Free.rely hfree hrely

/-- However the executors of any number of processes interleave and crash: an executor runs tests only
for the operation that it was asked for last, on the files that are due to it, in a directory made for
it; no directory is shared; what stood before stays as it was; and a directory is left over only by an
executor that has not ended or where it could not be removed. -/
theorem executors_isolated (x : ι → OverlayExecutor) (clients : ι → Prog Ans α)
    {base : OverlayStore} (hbase : base.launches = []) (moves : List (Move ι OverlayChoice)) :
    let p := (startExecutors x clients base).run OverlayStore.handle moves
    (∀ l ∈ p.world.state.launches, base.dirs l.dir = none ∧
        ∃ i op, ServedRun x i op l p.world.history) ∧
      (∀ i j dir, overlayLeases.Holds i dir p.world.history →
        overlayLeases.Holds j dir p.world.history → i = j) ∧
      (∀ dir o, base.dirs dir = some o → p.world.state.dirs dir = some o) ∧
      ∀ dir, p.world.state.dirs dir ≠ none → base.dirs dir ≠ none ∨
        (∃ i, p.result i = none ∧ overlayLeases.Holds i dir p.world.history) ∨
        ∃ e ∈ p.world.history, overlayLeases.given e.event = some dir ∧ e.choice.leaves = true := by
  intro p
  have hsafe := executors_safe x clients hbase moves
  obtain ⟨hsound, hruns⟩ := hsafe.invariant
  refine ⟨hruns, hsound.apart, hsound.kept, fun dir hdir => ?_⟩
  rcases hsound.accounted dir hdir with hbase | ⟨i, hi⟩ | hleft
  · exact .inl hbase
  · refine .inr (.inl ⟨i, ?_, hi⟩)
    cases hresult : p.result i with
    | none => rfl
    | some a => exact absurd hi (hsafe.returned i a (Pool.result_eq_some.mp hresult) dir)
  · exact .inr (.inr hleft)

end

def baseHash : Text := "cae662172fd450bb0cd710a769079c05bfc5d8e35efa6576edc7d0377afdd4a2"

/-- The digest of the one text that is hashed below. -/
abbrev baseDigest : Digest := ⟨fun _ => baseHash⟩

/-- Executors of two processes that have the same number. -/
def twinExecutor (second : Bool) : OverlayExecutor where
  revs := ⟨.ofEntries [], .ofEntries []⟩
  command := some (.argv "cargo" ["test", "--quiet"])
  adapterId := "rust"
  stateRoot := "/s"
  overlaysRoot := "/s/runs/r/overlays"
  runAs := none
  process := if second then 1 else 0
  pid := 7

def firstDir : Text := "/s/runs/r/overlays/base-cae662172fd450bb0cd710a769079c05-7-0"

/-- An overlay was left over, by a process that had that number too. -/
def leftover : OverlayStore where
  dirs := fun dir => if dir = firstDir then some .empty else none
  nonces := fun _ => 0
  launches := []

def smoothChoice : OverlayChoice where
  provide := fun _ => .ok ⟨[]⟩
  errno := none
  fault := none
  debris := .empty
  canonical := .ok []
  verdict := fun _ => .ok ⟨.passed, some 0, 1, false, [], []⟩
  leaves := false

/-- The executors take turns. -/
def turns : List (Move Bool OverlayChoice) :=
  (List.replicate 10 [.act false smoothChoice, .act true smoothChoice]).flatten

def existingRun (_ : Bool) : Prog Ans (Except ExecError ExecutionResult) :=
  Prog.ask (PipelineOp.runExisting .base)

/-- Each runs the existing tests, with a counter of its own. -/
def twoExecutors : ExecutorPool Bool (Except ExecError ExecutionResult) :=
  (@startExecutors baseDigest _ _ twinExecutor existingRun leftover).run
    (@OverlayStore.handle baseDigest) turns

theorem twoExecutors_run : twoExecutors.world.state.launches.length = 2 := by decide +kernel

/-- Both run their tests, neither in the directory that was left over, which stays. -/
theorem twoExecutors_isolated :
    twoExecutors.world.state.launches.length = 2 ∧
      (∀ l ∈ twoExecutors.world.state.launches, leftover.dirs l.dir = none ∧
        ∃ i op, @ServedRun baseDigest _ _ twinExecutor i op l twoExecutors.world.history) ∧
      twoExecutors.world.state.dirs firstDir = some .empty := by
  have hfresh : leftover.launches = [] := rfl
  have hleft : leftover.dirs firstDir = some .empty := by simp [leftover]
  obtain ⟨hruns, -, hkept, -⟩ := @executors_isolated baseDigest _ _ _ twinExecutor existingRun
    leftover hfresh turns
  refine ⟨twoExecutors_run, ?_⟩
  unfold twoExecutors
  exact ⟨hruns, hkept firstDir .empty hleft⟩

end Jitgen
