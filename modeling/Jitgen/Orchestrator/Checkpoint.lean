import Jitgen.Orchestrator.Run

/-!
# Checkpoints of driven targets

A step that is done must have an artifact holding an outcome computed under the step's input hash.
The contract of a driving process: it keeps this of every step, and it relies on nobody recording
other inputs for the step it works on.
-/

namespace Jitgen

open Text

abbrev RunEntry (ι : Type) := Entry ι (DriveAns RunAns) (Choice RunAns)

abbrev RunWorld (ι : Type) := World ι (DriveAns RunAns) (Choice RunAns) Store

/-- A processed target, the fingerprint it was processed under, and the outcome. -/
abbrev Computation := RankedTarget × Text × TargetOutcome

variable {ι : Type}

/-- The outcome an entry computed. -/
def computation (e : RunEntry ι) : Option Computation :=
  match e.event with
  | ⟨.ext (.process _ configFp rt), .ok o⟩ => some (rt, configFp, o)
  | _ => none

/-- Every outcome computed so far. -/
def computed (history : List (RunEntry ι)) : List Computation := history.filterMap computation

theorem computed_store (i : ι) (c : Choice RunAns) (o : StoreOp)
    (a : DriveAns RunAns (.store o)) (history : List (RunEntry ι)) :
    computed (⟨i, c, ⟨.store o, a⟩⟩ :: history) = computed history := rfl

theorem computed_subset_cons (e : RunEntry ι) (history : List (RunEntry ι)) :
    computed history ⊆ computed (e :: history) := by
  intro x hx
  unfold computed at hx ⊢
  cases he : computation e with
  | none => rwa [List.filterMap_cons_none he]
  | some y =>
    rw [List.filterMap_cons_some he]
    exact List.mem_cons_of_mem _ hx

/-- The input hash recorded for a target's step. -/
def hashAt (d : RunDir) (id : Text) : Option Text := (d.steps (targetStepId id)).map (·.inputHash)

theorem hashAt_of_step {d : RunDir} {id : Text} {row : StepRow}
    (hrow : d.steps (targetStepId id) = some row) : hashAt d id = some row.inputHash := by
  simp [hashAt, hrow]

theorem step_of_hashAt {d : RunDir} {id h : Text} (hh : hashAt d id = some h) :
    ∃ row, d.steps (targetStepId id) = some row ∧ row.inputHash = h := by
  unfold hashAt at hh
  obtain ⟨row, hrow, rfl⟩ := Option.map_eq_some_iff.mp hh
  exact ⟨row, hrow, rfl⟩

theorem targetStepId_injective {id id' : Text} (h : targetStepId id = targetStepId id') :
    id = id' :=
  List.append_cancel_left h

theorem targetArtifact_injective {id id' : Text} (h : targetArtifact id = targetArtifact id') :
    id = id' :=
  List.append_cancel_left (List.append_cancel_right h)

section

variable [Serde] [Digest]

/-- The artifact of a target holds an outcome computed for inputs of the given hash. -/
def ArtifactUnder (done : List Computation) (d : RunDir) (id h : Text) : Prop :=
  ∃ bytes, d.files (targetArtifact id) = some bytes ∧
    ∃ x ∈ done, targetHash x.1 x.2.1 = .ok h ∧ encodeOutcome x.2.2 = .ok bytes

/-- Every done step has an artifact computed under its input hash. -/
def Intact (done : List Computation) (d : RunDir) : Prop :=
  ∀ id row, d.steps (targetStepId id) = some row → row.status.isDone = true →
    ArtifactUnder done d id row.inputHash

/-- The outcome was computed for inputs that hash like these, or read back from the encoding of one
that was. -/
def OutcomeFor (done : List Computation) (rt : RankedTarget) (configFp : Text) (o : TargetOutcome) :
    Prop :=
  ∃ x ∈ done, (∃ h, targetHash x.1 x.2.1 = .ok h ∧ targetHash rt configFp = .ok h) ∧
    ∃ bytes, encodeOutcome x.2.2 = .ok bytes ∧ (x.2.2 = o ∨ decodeOutcome bytes = .ok o)

variable {done done' : List Computation} {d d' : RunDir} {id h : Text} {rt : RankedTarget}
  {configFp : Text} {o : TargetOutcome}

theorem intact_fresh (h : ∀ id, d.steps (targetStepId id) = none) : Intact done d := by
  intro id row hrow
  rw [h id] at hrow
  cases hrow

theorem ArtifactUnder.mono (ha : ArtifactUnder done d id h) (hdone : done ⊆ done') :
    ArtifactUnder done' d id h := by
  obtain ⟨bytes, hfile, x, hx, hrest⟩ := ha
  exact ⟨bytes, hfile, x, hdone hx, hrest⟩

theorem OutcomeFor.mono (ho : OutcomeFor done rt configFp o) (hdone : done ⊆ done') :
    OutcomeFor done' rt configFp o := by
  obtain ⟨x, hx, hrest⟩ := ho
  exact ⟨x, hdone hx, hrest⟩

/-- An update keeps done steps intact, and, for the steps and hashes of `keeps`, a recorded hash
and an artifact under it. -/
structure Advances (keeps : Text → Text → Prop) (done done' : List Computation) (d d' : RunDir) :
    Prop where
  computed : done ⊆ done'
  intact : Intact done d → Intact done' d'
  hash : ∀ id h, keeps id h → hashAt d id = some h → hashAt d' id = some h
  artifact : ∀ id h, keeps id h → hashAt d id = some h → ArtifactUnder done d id h →
    ArtifactUnder done' d' id h

variable {keeps : Text → Text → Prop}

theorem Advances.trans {done'' : List Computation} {d'' : RunDir}
    (h₁ : Advances keeps done done' d d') (h₂ : Advances keeps done' done'' d' d'') :
    Advances keeps done done'' d d'' where
  computed := List.Subset.trans h₁.computed h₂.computed
  intact hint := h₂.intact (h₁.intact hint)
  hash id h hk hh := h₂.hash id h hk (h₁.hash id h hk hh)
  artifact id h hk hh ha := h₂.artifact id h hk (h₁.hash id h hk hh) (h₁.artifact id h hk hh ha)

theorem Advances.mono {keeps' : Text → Text → Prop} (h : Advances keeps done done' d d')
    (hk : ∀ id h, keeps' id h → keeps id h) : Advances keeps' done done' d d' where
  computed := h.computed
  intact := h.intact
  hash id x hx := h.hash id x (hk id x hx)
  artifact id x hx := h.artifact id x (hk id x hx)

theorem advances_same (hdone : done ⊆ done') (hsteps : d'.steps = d.steps)
    (hfiles : d'.files = d.files) : Advances keeps done done' d d' := by
  have hartifact : ∀ {id h}, ArtifactUnder done d id h → ArtifactUnder done' d' id h := by
    rintro id h ⟨bytes, hfile, x, hx, hrest⟩
    exact ⟨bytes, by rwa [hfiles], x, hdone hx, hrest⟩
  refine ⟨hdone, fun hint id row hrow hs => hartifact (hint id row ?_ hs), fun id h _ hh => ?_,
    fun id h _ _ ha => hartifact ha⟩
  · rwa [hsteps] at hrow
  · unfold hashAt at hh ⊢
    rwa [hsteps]

theorem advances_setStep {row : StepRow}
    (hkeeps : ∀ h, keeps id h → hashAt d id = some h → row.inputHash = h)
    (hrow : Intact done d → row.status.isDone = true → ArtifactUnder done d id row.inputHash) :
    Advances keeps done done d (d.setStep (targetStepId id) row) := by
  refine ⟨List.Subset.refl _, ?_, ?_, fun id' h' _ _ ha => ha⟩
  · intro hint id' row' hrow' hs
    by_cases hid : id' = id
    · subst hid
      simp only [RunDir.setStep, Function.update_self, Option.some.injEq] at hrow'
      subst hrow'
      exact hrow hint hs
    · have hne : targetStepId id' ≠ targetStepId id := fun he => hid (targetStepId_injective he)
      simp only [RunDir.setStep, Function.update_of_ne hne] at hrow'
      exact hint id' row' hrow' hs
  · intro id' h' hk hh
    by_cases hid : id' = id
    · subst hid
      rw [← hkeeps h' hk hh]
      simp [hashAt, RunDir.setStep]
    · have hne : targetStepId id' ≠ targetStepId id := fun he => hid (targetStepId_injective he)
      simpa only [hashAt, RunDir.setStep, Function.update_of_ne hne] using hh

theorem advances_setStep_undone {row : StepRow}
    (hkeeps : ∀ h, keeps id h → hashAt d id = some h → row.inputHash = h)
    (hundone : row.status.isDone = false) :
    Advances keeps done done d (d.setStep (targetStepId id) row) := by
  apply advances_setStep hkeeps
  intro _ hdone
  rw [hundone] at hdone
  cases hdone

theorem advances_recordStep {seq : Int} {kind : Text} (hkeeps : ∀ h', keeps id h' → h' = h) :
    Advances keeps done done d (d.recordStep (targetStepId id) seq kind h) := by
  have hpending : Advances keeps done done d
      (d.setStep (targetStepId id) ⟨seq, kind, h, .pending, none, 0⟩) :=
    advances_setStep_undone (fun h' hk _ => (hkeeps h' hk).symm) rfl
  unfold RunDir.recordStep
  cases d.steps (targetStepId id) with
  | none => exact hpending
  | some row =>
    dsimp only
    split_ifs
    · exact hpending.trans (advances_same (List.Subset.refl _) rfl rfl)
    · exact advances_same (List.Subset.refl _) rfl rfl

omit [Serde] [Digest] in
theorem hashAt_recordStep (seq : Int) (kind : Text) :
    hashAt (d.recordStep (targetStepId id) seq kind h) id = some h := by
  unfold RunDir.recordStep
  cases hrow : d.steps (targetStepId id) with
  | none => simp [hashAt, RunDir.setStep]
  | some row =>
    dsimp only
    split_ifs with hchanged
    · simp [hashAt, RunDir.setStep]
    · push Not at hchanged
      rw [hashAt_of_step hrow, hchanged.2.2]

theorem advances_setFile {bytes : Bytes} (hh : hashAt d id = some h)
    (ha : ArtifactUnder done (d.setFile (targetArtifact id) bytes) id h) :
    Advances keeps done done d (d.setFile (targetArtifact id) bytes) := by
  have hartifact : ∀ id' h', hashAt d id' = some h' → ArtifactUnder done d id' h' →
      ArtifactUnder done (d.setFile (targetArtifact id) bytes) id' h' := by
    intro id' h' hh' ha'
    by_cases hid : id' = id
    · subst hid
      rw [hh] at hh'
      cases hh'
      exact ha
    · have hne : targetArtifact id' ≠ targetArtifact id :=
        fun he => hid (targetArtifact_injective he)
      obtain ⟨bytes', hfile, hrest⟩ := ha'
      exact ⟨bytes', by simpa only [RunDir.setFile, Function.update_of_ne hne] using hfile, hrest⟩
  refine ⟨List.Subset.refl _, fun hint id' row hrow hs => ?_, fun id' h' _ hh' => hh', ?_⟩
  · exact hartifact id' _ (hashAt_of_step hrow) (hint id' row hrow hs)
  · exact fun id' h' _ hh' ha' => hartifact id' h' hh' ha'

end

end Jitgen
