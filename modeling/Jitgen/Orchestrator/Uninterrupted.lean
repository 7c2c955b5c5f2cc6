import Jitgen.Orchestrator.DriveSafety

/-!
# Uninterrupted drives

Without a fault, and with every target processed and its outcome stored, a drive returns whatever
the checkpoints it starts from, as long as they are intact.
-/

namespace Jitgen

open Text

private theorem sanitizeId_chars {s : Text} {c : Char} (hc : c ∈ sanitizeId s) :
    c ≠ '/' ∧ c ≠ '\\' := by
  obtain ⟨c', -, rfl⟩ := List.mem_map.mp (List.mem_of_mem_take hc)
  dsimp only
  constructor
  all_goals
    intro heq
    split_ifs at heq with hplain
    · rw [heq] at hplain
      exact absurd hplain (by decide)
    · exact absurd heq (by decide)

private theorem components_targetArtifact {id : Text} (hid : '/' ∉ id) :
    UnixPath.components (targetArtifact id) = [.normal "targets", .normal (id ++ ".json")] := by
  have hsplit : (targetArtifact id).splitOn '/' = [("targets" : Text), id ++ ".json"] := by
    have hshape : targetArtifact id = ("targets" : Text) ++ '/' :: (id ++ ".json") := by
      unfold targetArtifact
      simp
    have hname : '/' ∉ id ++ (".json" : Text) := by
      intro hmem
      rcases List.mem_append.mp hmem with h | h
      · exact hid h
      · exact absurd h (by decide)
    rw [hshape, List.splitOn_append_cons_self_of_not_mem (by decide),
      List.splitOn_eq_singleton hname]
  have hname : UnixPath.segment (id ++ (".json" : Text)) = some (.normal (id ++ ".json")) := by
    unfold UnixPath.segment
    have hlen : 5 ≤ (id ++ (".json" : Text)).length := by simp
    rw [if_neg, if_neg]
    · intro heq
      rw [heq] at hlen
      exact absurd hlen (by decide)
    · rintro (heq | heq) <;> rw [heq] at hlen <;> exact absurd hlen (by decide)
  unfold UnixPath.components
  have habs : UnixPath.isAbsolute (targetArtifact id) = false := rfl
  rw [hsplit, habs]
  simp only [Bool.false_eq_true, if_false, List.filterMap_cons, hname, List.filterMap_nil]
  have hhead : ¬ [("targets" : Text), id ++ ".json"].head? = some ("." : Text) :=
    fun h => absurd (Option.some.inj h) (by decide)
  rw [if_neg hhead]
  rfl

private theorem targetArtifact_safe (s : Text) :
    rejectUnsafeRel (targetArtifact (sanitizeId s)) = false := by
  have hchars : ∀ c ∈ sanitizeId s, c ≠ '/' ∧ c ≠ '\\' := fun c hc => sanitizeId_chars hc
  have hslash : '/' ∉ sanitizeId s := fun h => (hchars _ h).1 rfl
  have hback : (targetArtifact (sanitizeId s)).contains '\\' = false := by
    have hnot : '\\' ∉ targetArtifact (sanitizeId s) := by
      intro hmem
      unfold targetArtifact at hmem
      rcases List.mem_append.mp hmem with h | h
      · rcases List.mem_append.mp h with h | h
        · exact absurd h (by decide)
        · exact (hchars _ h).2 rfl
      · exact absurd h (by decide)
    simpa using hnot
  have hend : (targetArtifact (sanitizeId s)).endsWith "/" = false := by
    cases hsuf : (targetArtifact (sanitizeId s)).endsWith "/" with
    | false => rfl
    | true =>
      obtain ⟨pre, hpre⟩ := List.isSuffixOf_iff_suffix.mp hsuf
      have hjson : (targetArtifact (sanitizeId s)).getLast? = some 'n' := by
        unfold targetArtifact
        rw [List.getLast?_append]
        rfl
      rw [← hpre, List.getLast?_append] at hjson
      exact absurd (Option.some.inj hjson) (by decide)
  unfold rejectUnsafeRel
  rw [components_targetArtifact hslash]
  simp only [hback, hend, Bool.or_false]
  rfl

variable {ι : Type} [DecidableEq ι] [Serde] [Digest]

/-- No fault, and every target processed by `g`. -/
def faultless (g : Target → Text → Except OrchestratorError TargetOutcome) : Choice RunAns where
  fault := .none
  answer
    | .process _ configFp rt => g rt.target configFp
    | .assembled _ _ => ()
    | .openRepo _ => .error (.invalid "run" "outside the drive")
    | .ensureOutsideRepo _ _ => .error (.invalid "run" "outside the drive")
    | .openStore _ => .error (.invalid "run" "outside the drive")
    | .reopenRepo _ => .error (.invalid "run" "outside the drive")
    | .analyze _ _ _ _ _ => .error (.invalid "run" "outside the drive")

variable {g : Target → Text → Except OrchestratorError TargetOutcome} {run : RunId} {i : ι}
  {w : RunWorld ι} {id h configFp : Text} {rt : RankedTarget} {o : TargetOutcome} {bytes : Bytes}

omit [DecidableEq ι] [Serde] [Digest] in
private theorem completes_stateOp {op : StoreOp} {a : op.Res} (h : (w.state.apply op).1 = .ok a) :
    (stateOp op : RunProg op.Res).Completes handle i (faultless g) w :=
  Fallible.completes_attempt h

omit [DecidableEq ι] [Serde] in
private theorem completes_publishArtifact (s kind : Text) :
    (RunHandle.publishArtifact run (targetArtifact (sanitizeId s)) bytes kind
      (targetStepId (sanitizeId s)) : RunProg ArtifactRecord).Completes handle i (faultless g) w := by
  have hjoin : (RunHandle.safeJoin (targetArtifact (sanitizeId s)) : RunProg Unit) = pure () := by
    have hslash : '/' ∉ sanitizeId s := fun h => (sanitizeId_chars h).1 rfl
    unfold RunHandle.safeJoin
    rw [components_targetArtifact hslash]
    rfl
  unfold RunHandle.publishArtifact
  rw [hjoin]
  refine Fallible.completes_bind_end (a := ()) rfl ?_
  refine Fallible.completes_bind_end (a := ()) rfl ?_
  refine Fallible.completes_bind_end (a := ()) rfl ?_
  exact Fallible.completes_pure _ _ _

private theorem completes_checkpoint (hw : Working run i w (sanitizeId id) h)
    (ho : (rt, configFp, o) ∈ computed w.history) (hhash : targetHash rt configFp = .ok h)
    (hbytes : encodeOutcome o = .ok bytes) :
    (checkpoint run (sanitizeId id) (.ok o) : RunProg TargetOutcome).Completes handle i
      (faultless g) w := by
  refine Fallible.completes_bind_end (a := bytes) hbytes ?_
  refine Fallible.completes_bind (safe_publishArtifact hw ho hhash hbytes "target")
    (completes_publishArtifact id "target") ?_
  rintro _ w ⟨hw, ha⟩
  obtain ⟨row, hrow, -⟩ := step_of_hashAt hw.hash
  refine Fallible.completes_bind (safe_finishStep hw ha none) ?_ fun _ _ _ =>
    Fallible.completes_pure _ _ _
  exact completes_stateOp (a := ()) (by simp [Store.apply, hrow])

private theorem completes_processStep (hw : Working run i w (sanitizeId id) h)
    (hhash : targetHash rt configFp = .ok h) (hg : g rt.target configFp = .ok o)
    (hbytes : encodeOutcome o = .ok bytes) (cfg : RunConfig) :
    (processStep run (sanitizeId id) (RunOp.callProcess cfg configFp rt)).Completes handle i
      (faultless g) w := by
  obtain ⟨row, hrow, -⟩ := step_of_hashAt hw.hash
  refine Fallible.completes_bind (safe_beginStep hw)
    (completes_stateOp (a := ()) (by simp [Store.apply, hrow])) fun _ w hw => ?_
  refine Fallible.completes_capture_bind ?_
  have hpost := ((safe_callProcess hw cfg).reaches (I := fun _ => True) (fun _ _ _ _ _ => trivial)
    (Prog.reaches_runAll (faultless g) (RunOp.callProcess cfg configFp rt).run w) trivial).2 _ rfl
  have hres : ((RunOp.callProcess cfg configFp rt).run.runAll handle i (faultless g) w).1 =
      .ok o := Fallible.runAll_attempt hg
  rw [hres]
  exact completes_checkpoint (hpost.2 o hres).1 (hpost.2 o hres).2 hhash hbytes

variable (hround : ∀ o bytes, encodeOutcome o = .ok bytes → decodeOutcome bytes = .ok o)
include hround

private theorem completes_driveTarget (hint : Intact (computed w.history) (w.state.runs run))
    (hhash : targetHash rt configFp = .ok h) (hg : g rt.target configFp = .ok o)
    (hbytes : encodeOutcome o = .ok bytes) (cfg : RunConfig) (n : Nat) :
    (driveTarget run configFp (RunOp.callProcess cfg configFp) n rt).Completes handle i
      (faultless g) w := by
  refine Fallible.completes_bind_end (a := h) hhash ?_
  refine Fallible.completes_bind (safe_recordStep hint n "target")
    (completes_stateOp (a := ()) rfl) fun _ w hw => ?_
  refine Fallible.completes_bind (safe_step hw) (completes_stateOp rfl) ?_
  rintro _ w ⟨hw, step, rfl, hstep⟩
  by_cases hs : step.status.isDone = true
  · simp only [hs, if_true]
    refine Fallible.completes_bind (safe_restore hw hhash (hstep hs)) ?_ ?_
    · unfold readRunArtifact
      rw [if_neg (by simp [targetArtifact_safe])]
      exact Fallible.completes_attempt rfl
    · rintro _ w ⟨bytes, o, rfl, hbytes, -⟩
      exact Fallible.completes_ofExcept (hround _ _ hbytes)
  · simp only [hs]
    exact completes_processStep hw hhash hg hbytes cfg

theorem completes_driveFrom {ranked : List RankedTarget}
    (hint : Intact (computed w.history) (w.state.runs run))
    (htargets : ∀ rt ∈ ranked, (∃ h, targetHash rt configFp = .ok h) ∧
      ∃ o bytes, g rt.target configFp = .ok o ∧ encodeOutcome o = .ok bytes)
    (cfg : RunConfig) (n : Nat) :
    (driveFrom run configFp (RunOp.callProcess cfg configFp) n ranked).Completes handle i
      (faultless g) w := by
  induction ranked generalizing n w with
  | nil => exact Fallible.completes_pure _ _ _
  | cons rt rest ih =>
    obtain ⟨⟨h, hhash⟩, o, bytes, hg, hbytes⟩ := htargets rt List.mem_cons_self
    refine Fallible.completes_bind (safe_driveTarget hint cfg n)
      (completes_driveTarget hround hint hhash hg hbytes cfg n) ?_
    rintro o w ⟨hint, -⟩
    refine Fallible.completes_bind (safe_driveFrom hint cfg (n + 1) rest)
      (ih hint (fun rt hrt => htargets rt (List.mem_cons_of_mem _ hrt)) (n + 1)) ?_
    intro _ _ _
    exact Fallible.completes_pure _ _ _

end Jitgen
