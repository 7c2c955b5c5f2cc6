import Jitgen.State.Tables
import Mathlib.Data.List.Sort

/-!
# The step table of a run

Every call acts on the row of each step by itself, so that what a row has come to is read off the
calls on its step since it was last reset.
-/

namespace Jitgen

open Text

variable {d : RunDb} {step : Text}

def RunDb.row (d : RunDb) (step : Text) : Option StepsRow :=
  Table.select StepsRow.stepId step d.steps

def StepsRow.finished (status : StepStatus) (error : Option Text) (row : StepsRow) : StepsRow :=
  { row with
    status := status.asStr
    error := error.map fun e => RunHandle.capStr e RunHandle.maxErrorLen }

def StepsRow.recorded (step : Text) (seq : Int) (kind inputHash : Text) :
    Option StepsRow → StepsRow
  | none => .pending step seq kind inputHash
  | some r => if r.SameInputs seq kind inputHash then r else .pending step seq kind inputHash

/-- What a call makes of the row of a step. -/
def StepCall.onRow (step : Text) : StepCall → Option StepsRow → Option StepsRow
  | .recordStep s seq kind inputHash, row =>
    if s = step then some (.recorded step seq kind inputHash row) else row
  | .beginStep s, row => if s = step then row.map StepsRow.started else row
  | .finishStep s status error, row =>
    if s = step then row.map (StepsRow.finished status error) else row
  | .publishArtifact .., row => row

private theorem updateStep_steps (d : RunDb) (step : Text) (f : StepsRow → StepsRow) :
    (d.updateStep step f).2 = { d with steps := Table.update StepsRow.stepId step f d.steps } := by
  unfold RunDb.updateStep
  dsimp only
  split_ifs <;> rfl

private theorem updateStep_fst (d : RunDb) (step : Text) (f : StepsRow → StepsRow) :
    (d.updateStep step f).1 = if d.row step = none then .error (unknownStep step) else .ok () := by
  unfold RunDb.updateStep RunDb.row
  simp only [Table.countP_eq_zero_iff]
  split_ifs <;> rfl

private theorem row_updateStep (d : RunDb) (step : Text) {f : StepsRow → StepsRow}
    (hf : ∀ r, (f r).stepId = r.stepId) (step' : Text) :
    (d.updateStep step f).2.row step' =
      if step = step' then (d.row step').map f else d.row step' := by
  rw [updateStep_steps]
  unfold RunDb.row
  rw [Table.select_update hf]
  by_cases h : step = step'
  · rw [if_pos h.symm, if_pos h]
  · rw [if_neg (Ne.symm h), if_neg h]

/-- A step that is recorded for the first time, again, or with other inputs. -/
private theorem recordStep_cases (d : RunDb) (step : Text) (seq : Int) (kind inputHash : Text) :
    (d.row step = none ∧ d.recordStep step seq kind inputHash =
        (.ok (), { d with steps := d.steps ++ [.pending step seq kind inputHash] })) ∨
      ∃ r, d.row step = some r ∧
        (r.SameInputs seq kind inputHash ∧ d.recordStep step seq kind inputHash = (.ok (), d) ∨
          ¬ r.SameInputs seq kind inputHash ∧
            d.recordStep step seq kind inputHash = (.ok (), { d with
              steps := Table.update StepsRow.stepId step
                (fun r => .pending r.stepId seq kind inputHash) d.steps
              artifacts := d.artifacts.filter (·.stepId ≠ step) })) := by
  unfold RunDb.recordStep RunDb.row
  cases hrow : Table.select StepsRow.stepId step d.steps with
  | none =>
    have hinsert : Table.insert StepsRow.stepId (.pending step seq kind inputHash) d.steps = _ :=
      Table.insert_of_none hrow
    exact .inl ⟨rfl, by simp only [hinsert]⟩
  | some r =>
    refine .inr ⟨r, rfl, ?_⟩
    by_cases hsame : r.SameInputs seq kind inputHash
    · exact .inl ⟨hsame, by simp only [if_pos hsame]⟩
    · exact .inr ⟨hsame, by simp only [if_neg hsame]; rfl⟩

/-- What holds of the tables of a run at any time. -/
structure RunDb.Valid (d : RunDb) : Prop where
  steps : Table.Unique StepsRow.stepId d.steps
  artifacts : Table.Unique ArtifactsRow.key d.artifacts
  statuses : ∀ r ∈ d.steps, ∃ status : StepStatus, r.status = status.asStr
  retries : ∀ r ∈ d.steps, 0 ≤ r.retryCount

/-- A new database. -/
def RunDb.fresh : RunDb := RunDb.openSchema none

private theorem valid_fresh : RunDb.fresh.Valid := ⟨List.nodup_nil, List.nodup_nil, nofun, nofun⟩

theorem RunDb.Valid.updateStep (h : d.Valid) (step : Text) {f : StepsRow → StepsRow}
    (hid : ∀ r, (f r).stepId = r.stepId) (hstatus : ∀ r, ∃ s : StepStatus, (f r).status = s.asStr)
    (hretries : ∀ r, 0 ≤ r.retryCount → 0 ≤ (f r).retryCount) :
    (d.updateStep step f).2.Valid := by
  rw [updateStep_steps]
  refine ⟨Table.unique_update hid h.steps, h.artifacts, fun r hr => ?_, fun r hr => ?_⟩
  · have ⟨r', hr', hcase⟩ := Table.mem_update hr
    rcases hcase with hcase | hcase
    · rw [hcase]
      exact h.statuses r' hr'
    · rw [hcase]
      exact hstatus r'
  · have ⟨r', hr', hcase⟩ := Table.mem_update hr
    rcases hcase with hcase | hcase
    · rw [hcase]
      exact h.retries r' hr'
    · rw [hcase]
      exact hretries r' (h.retries r' hr')

/-- A call that makes the step's row anew. -/
def StepEvent.isReset (step : Text) (row : Option StepsRow) : StepEvent → Bool
  | .call (.recordStep s seq kind inputHash) =>
    decide (s = step) && row.all fun r => !decide (r.SameInputs seq kind inputHash)
  | _ => false

/-- A start of the step from running or failed. -/
def StepEvent.isRetry (step : Text) (row : Option StepsRow) : StepEvent → Bool
  | .call (.beginStep s) => decide (s = step) && row.any fun r => decide r.Stopped
  | _ => false

variable [Digest]

/-- Every call acts on the row of each step by itself. -/
private theorem row_call (d : RunDb) (c : StepCall) (step : Text) :
    (d.call c).row step = c.onRow step (d.row step) := by
  cases c with
  | recordStep s seq kind inputHash =>
    show (d.recordStep s seq kind inputHash).2.row step = _
    rcases recordStep_cases d s seq kind inputHash with ⟨hnone, heq⟩ | ⟨r, hrow, hcase⟩
    · have happend := Table.select_append (StepsRow.pending s seq kind inputHash) hnone step
      have hrow : (d.recordStep s seq kind inputHash).2.row step =
          if step = s then some (StepsRow.pending s seq kind inputHash) else d.row step := by
        rw [heq]
        exact happend
      rw [hrow, StepCall.onRow]
      by_cases hs : s = step
      · rw [hs] at hnone ⊢
        rw [if_pos rfl, if_pos rfl, hnone, StepsRow.recorded]
      · rw [if_neg (Ne.symm hs), if_neg hs]
    · rcases hcase with ⟨hsame, heq⟩ | ⟨hdiffer, heq⟩
      · rw [heq, StepCall.onRow]
        by_cases hs : s = step
        · rw [hs] at hrow
          simp only [if_pos hs, hrow, StepsRow.recorded, if_pos hsame]
        · rw [if_neg hs]
      · have hupdate : (d.recordStep s seq kind inputHash).2.row step =
            if step = s then (d.row step).map fun r => .pending r.stepId seq kind inputHash
            else d.row step := by
          rw [heq]
          exact Table.select_update (f := fun r => StepsRow.pending r.stepId seq kind inputHash)
            (fun _ => rfl) step
        rw [hupdate, StepCall.onRow]
        by_cases hs : s = step
        · have hid := (Table.mem_of_select hrow).2
          rw [hs] at hrow hid
          rw [if_pos hs.symm, if_pos hs, hrow, Option.map_some, StepsRow.recorded, if_neg hdiffer,
            hid]
        · rw [if_neg (Ne.symm hs), if_neg hs]
  | beginStep s =>
    have hkeep : ∀ r : StepsRow, r.started.stepId = r.stepId := fun _ => rfl
    exact row_updateStep d s hkeep step
  | finishStep s status error =>
    exact row_updateStep d s (f := StepsRow.finished status error) (fun _ => rfl) step
  | publishArtifact rel bytes kind s =>
    show (d.publishArtifact rel bytes kind s).2.row step = d.row step
    unfold RunDb.publishArtifact
    split <;> rfl

theorem RunDb.Valid.call (h : d.Valid) (c : StepCall) : (d.call c).Valid := by
  cases c with
  | recordStep s seq kind inputHash =>
    show (d.recordStep s seq kind inputHash).2.Valid
    rcases recordStep_cases d s seq kind inputHash with ⟨hnone, heq⟩ | ⟨r, _, hcase⟩
    · rw [heq]
      have hrows : ∀ {p : StepsRow → Prop}, (∀ r ∈ d.steps, p r) →
          p (.pending s seq kind inputHash) →
          ∀ r ∈ d.steps ++ [StepsRow.pending s seq kind inputHash], p r := by
        intro p hd hnew r hr
        rcases List.mem_append.mp hr with hr | hr
        · exact hd r hr
        · rw [List.mem_singleton.mp hr]
          exact hnew
      exact ⟨Table.unique_append h.steps (Table.select_eq_none_iff.mp hnone), h.artifacts,
        hrows h.statuses ⟨.pending, rfl⟩, hrows h.retries (Int.le_refl 0)⟩
    · rcases hcase with ⟨_, heq⟩ | ⟨_, heq⟩
      · rw [heq]
        exact h
      · rw [heq]
        have hreset := h.updateStep s
          (f := fun r => StepsRow.pending r.stepId seq kind inputHash) (fun _ => rfl)
          (fun _ => ⟨.pending, rfl⟩) (fun _ _ => Int.le_refl 0)
        rw [updateStep_steps] at hreset
        exact ⟨hreset.steps, Table.unique_filter _ h.artifacts, hreset.statuses, hreset.retries⟩
  | beginStep s =>
    apply RunDb.Valid.updateStep h
    · exact fun _ => rfl
    · exact fun _ => ⟨.running, rfl⟩
    · intro r hr
      show 0 ≤ r.retryCount + if r.Stopped then 1 else 0
      split_ifs <;> omega
  | finishStep s status error =>
    apply RunDb.Valid.updateStep h
    · exact fun _ => rfl
    · exact fun _ => ⟨status, rfl⟩
    · exact fun _ hr => hr
  | publishArtifact rel bytes kind s =>
    show (d.publishArtifact rel bytes kind s).2.Valid
    unfold RunDb.publishArtifact
    split
    · exact h
    · exact ⟨h.steps, Table.unique_insertOrReplace h.artifacts, h.statuses, h.retries⟩

theorem RunDb.Valid.after (h : d.Valid) (history : List StepEvent) : (d.after history).Valid := by
  induction history generalizing d with
  | nil => exact h
  | cons e history ih =>
    apply ih
    cases e with
    | call c => exact h.call c
    | lost c => exact h
    | reopen => exact h

/-- The retries of a step in a history. -/
def RunDb.retries (step : Text) : RunDb → List StepEvent → Nat
  | _, [] => 0
  | d, e :: history =>
    (if e.isRetry step (d.row step) then 1 else 0) + retries step (d.next e) history

/-- Whether a history makes a step's row anew at some point. -/
def RunDb.resets (step : Text) : RunDb → List StepEvent → Bool
  | _, [] => false
  | d, e :: history => e.isReset step (d.row step) || resets step (d.next e) history

private theorem row_next (d : RunDb) (e : StepEvent) (step : Text) :
    (d.next e).row step =
      match e with
      | .call c => c.onRow step (d.row step)
      | _ => d.row step := by
  cases e with
  | call c => exact row_call d c step
  | lost c => rfl
  | reopen => rfl

private theorem row_of_reset {e : StepEvent} (h : e.isReset step (d.row step) = true) :
    ∃ seq kind inputHash, (d.next e).row step = some (.pending step seq kind inputHash) := by
  rw [row_next]
  cases e with
  | call c =>
    cases c with
    | recordStep s seq kind inputHash =>
      simp only [StepEvent.isReset, Bool.and_eq_true, decide_eq_true_eq] at h
      refine ⟨seq, kind, inputHash, ?_⟩
      simp only [StepCall.onRow, if_pos h.1]
      cases hrow : d.row step with
      | none => rfl
      | some r =>
        rw [hrow] at h
        simp only [Option.all_some, Bool.not_eq_true', decide_eq_false_iff_not] at h
        rw [StepsRow.recorded, if_neg h.2]
    | _ => cases h
  | _ => cases h

/-- Any other event counts its retry and keeps the row, or the lack of one. -/
private theorem row_of_not_reset {e : StepEvent} (h : e.isReset step (d.row step) = false) :
    (d.row step = none ∧ (d.next e).row step = none) ∨
      ∃ r r', d.row step = some r ∧ (d.next e).row step = some r' ∧
        r'.retryCount = r.retryCount + if e.isRetry step (d.row step) then 1 else 0 := by
  rw [row_next]
  cases hrow : d.row step with
  | none =>
    refine .inl ⟨rfl, ?_⟩
    rw [hrow] at h
    cases e with
    | call c =>
      cases c with
      | recordStep s seq kind inputHash =>
        simp only [StepEvent.isReset, Option.all_none, Bool.and_true, decide_eq_false_iff_not] at h
        simp only [StepCall.onRow, if_neg h]
      | beginStep s => simp [StepCall.onRow]
      | finishStep s status error => simp [StepCall.onRow]
      | publishArtifact rel bytes kind s => rfl
    | _ => rfl
  | some r =>
    rw [hrow] at h
    right
    cases e with
    | call c =>
      cases c with
      | recordStep s seq kind inputHash =>
        refine ⟨r, r, rfl, ?_, by simp [StepEvent.isRetry]⟩
        simp only [StepCall.onRow]
        by_cases hs : s = step
        · rw [if_pos hs]
          simp only [StepEvent.isReset, hs, decide_true, Option.all_some, Bool.true_and,
            Bool.not_eq_false', decide_eq_true_eq] at h
          rw [StepsRow.recorded, if_pos h]
        · rw [if_neg hs]
      | beginStep s =>
        by_cases hs : s = step
        · exact ⟨r, r.started, rfl, by simp [StepCall.onRow, hs],
            by simp [StepEvent.isRetry, StepsRow.started, hs]⟩
        · exact ⟨r, r, rfl, by simp [StepCall.onRow, hs], by simp [StepEvent.isRetry, hs]⟩
      | finishStep s status error =>
        by_cases hs : s = step
        · exact ⟨r, r.finished status error, rfl, by simp [StepCall.onRow, hs],
            by simp [StepEvent.isRetry, StepsRow.finished]⟩
        · exact ⟨r, r, rfl, by simp [StepCall.onRow, hs], by simp [StepEvent.isRetry]⟩
      | publishArtifact rel bytes kind s => exact ⟨r, r, rfl, rfl, by simp [StepEvent.isRetry]⟩
    | _ => exact ⟨r, r, rfl, rfl, by simp [StepEvent.isRetry]⟩

private theorem retryCount_after {history : List StepEvent} {r : StepsRow}
    (hrow : d.row step = some r) (h : RunDb.resets step d history = false) :
    ∃ r', (d.after history).row step = some r' ∧
      r'.retryCount = r.retryCount + RunDb.retries step d history := by
  induction history generalizing d r with
  | nil => exact ⟨r, hrow, by simp [RunDb.retries]⟩
  | cons e history ih =>
    rw [RunDb.resets, Bool.or_eq_false_iff] at h
    rcases row_of_not_reset h.1 with ⟨hnone, _⟩ | ⟨r₀, r₁, hrow₀, hrow₁, hcount⟩
    · rw [hnone] at hrow
      cases hrow
    · rw [hrow, Option.some.injEq] at hrow₀
      have ⟨r', hrow', hcount'⟩ := ih hrow₁ h.2
      refine ⟨r', hrow', ?_⟩
      rw [hcount', hcount, RunDb.retries, hrow₀]
      split_ifs <;> simp [Int.add_assoc]

private theorem resets_append (step : Text) (d : RunDb) (history : List StepEvent) (e : StepEvent) :
    RunDb.resets step d (history ++ [e]) =
      (RunDb.resets step d history || e.isReset step ((d.after history).row step)) := by
  induction history generalizing d with
  | nil => simp [RunDb.resets, RunDb.after]
  | cons e' history ih =>
    rw [List.cons_append, RunDb.resets, RunDb.resets, ih, Bool.or_assoc]
    rfl

private theorem after_append (d : RunDb) (history : List StepEvent) (e : StepEvent) :
    d.after (history ++ [e]) = (d.after history).next e := by
  unfold RunDb.after
  rw [List.foldl_append]
  rfl

private theorem after_split (d : RunDb) (before later : List StepEvent) (e : StepEvent) :
    d.after (before ++ e :: later) = ((d.after before).next e).after later := by
  unfold RunDb.after
  rw [List.foldl_append, List.foldl_cons]

/-- A step that has a row was reset, for the last time at some point. -/
private theorem exists_last_reset {history : List StepEvent} {r : StepsRow}
    (hnone : d.row step = none) (hrow : (d.after history).row step = some r) :
    ∃ before e later, history = before ++ e :: later ∧
      e.isReset step ((d.after before).row step) = true ∧
      RunDb.resets step ((d.after before).next e) later = false := by
  induction history using List.reverseRecOn generalizing r with
  | nil =>
    rw [RunDb.after, List.foldl_nil, hnone] at hrow
    cases hrow
  | append_singleton history e ih =>
    rw [after_append] at hrow
    cases hreset : e.isReset step ((d.after history).row step) with
    | true => exact ⟨history, e, [], rfl, hreset, rfl⟩
    | false =>
      rcases row_of_not_reset hreset with ⟨_, hnone'⟩ | ⟨r₀, r₁, hrow₀, _, _⟩
      · rw [hnone'] at hrow
        cases hrow
      · have ⟨before, e₀, later, hsplit, hlast, hquiet⟩ := ih hrow₀
        refine ⟨before, e₀, later ++ [e], by simp [hsplit], hlast, ?_⟩
        rw [resets_append, hquiet, Bool.false_or]
        rw [← after_split, ← hsplit]
        exact hreset

omit [Digest] in
private theorem exists_resumePoint (d : RunDb) : ∃ answer, d.ResumePoint answer := by
  let le : StepsRow → StepsRow → Bool := fun r r' => decide (r.seq ≤ r'.seq)
  refine ⟨_, _, List.mergeSort_perm _ le, ?_, rfl⟩
  have hsorted := @List.pairwise_mergeSort _ le
    (fun a b c hab hbc =>
      decide_eq_true (Int.le_trans (of_decide_eq_true hab) (of_decide_eq_true hbc)))
    (fun a b => by
      rcases Int.le_total a.seq b.seq with h | h
      · simp [le, h]
      · simp [le, h])
    (d.steps.filter fun r => r.status ∉ [("succeeded" : Text), "skipped"])
  exact hsorted.imp fun h => of_decide_eq_true h

/-- Whether a step is still to be run. -/
def StepsRow.Open (row : StepsRow) : Prop := row.status ≠ "succeeded" ∧ row.status ≠ "skipped"

omit [Digest] in
/-- The query finds an open step of least number, and nothing only where none is open. -/
private theorem resumePoint_cases (h : d.Valid) {answer : Except Text (Option StepRecord)}
    (hanswer : d.ResumePoint answer) :
    (answer = .ok none ∧ ∀ r ∈ d.steps, ¬ r.Open) ∨
      ∃ r ∈ d.steps, r.Open ∧ (∀ r' ∈ d.steps, r'.Open → r.seq ≤ r'.seq) ∧
        ∃ record, rowToStep r = .ok record ∧ answer = .ok (some record) := by
  obtain ⟨rows, hperm, hsorted, hhead⟩ := hanswer
  have hmem : ∀ r, r ∈ rows ↔ r ∈ d.steps ∧ r.Open := by
    intro r
    rw [hperm.mem_iff, List.mem_filter]
    simp [StepsRow.Open]
  cases rows with
  | nil =>
    refine .inl ⟨hhead, fun r hr hopen => ?_⟩
    exact absurd ((hmem r).mpr ⟨hr, hopen⟩) List.not_mem_nil
  | cons r rows =>
    obtain ⟨hr, hopen⟩ := (hmem r).mp List.mem_cons_self
    obtain ⟨status, hstatus⟩ := h.statuses r hr
    have hread : ∃ record, rowToStep r = .ok record := by
      unfold rowToStep
      rw [hstatus, StepStatus.parse_asStr]
      exact ⟨_, rfl⟩
    obtain ⟨record, hrecord⟩ := hread
    refine .inr ⟨r, hr, hopen, fun r' hr' hopen' => ?_, record, hrecord, ?_⟩
    · rcases List.mem_cons.mp ((hmem r').mpr ⟨hr', hopen'⟩) with heq | hlater
      · rw [heq]
      · exact (List.pairwise_cons.mp hsorted).1 r' hlater
    · rw [hhead]
      simp only [List.head?_cons, hrecord]
      rfl

omit [Digest]

private theorem unique_index {rows : IndexDb} (h : Table.Unique RunMeta.runId rows)
    (c : IndexCall) :
    Table.Unique RunMeta.runId (rows.call c) := by
  cases c with
  | createRun info =>
    show Table.Unique RunMeta.runId (rows.createRun info).2
    unfold IndexDb.createRun
    split_ifs
    · dsimp only
      split
      · exact Table.unique_insertOrIgnore h
      · split_ifs
        · exact Table.unique_insertOrIgnore h
        · exact Table.unique_insertOrIgnore h
    · exact h
  | setRunStatus run status =>
    show Table.Unique RunMeta.runId (rows.setRunStatus run status).2
    unfold IndexDb.setRunStatus
    dsimp only
    split_ifs
    · exact Table.unique_update (fun _ => rfl) h
    · exact Table.unique_update (fun _ => rfl) h

private theorem unique_indexAfter (calls : List IndexCall) :
    Table.Unique RunMeta.runId (calls.foldl IndexDb.call []) := by
  induction calls using List.reverseRecOn with
  | nil => exact List.nodup_nil
  | append_singleton calls c ih =>
    rw [List.foldl_append]
    exact unique_index ih c

private theorem createRun_conflict {rows : IndexDb} (h : Table.Unique RunMeta.runId rows)
    {existing info : RunMeta} (hmem : existing ∈ rows) (hid : existing.runId = info.runId)
    (hdiffer : RunStore.sameInputs existing info = false) :
    ∃ e, rows.createRun info = (.error e, rows) := by
  have hfound : Table.select RunMeta.runId info.runId rows = some existing := by
    rw [← hid]
    exact Table.select_of_mem h hmem
  unfold IndexDb.createRun
  split_ifs
  · simp only [Table.insertOrIgnore_of_some hfound, IndexDb.getRun, hfound, hdiffer,
      Bool.false_eq_true, if_false]
    exact ⟨_, rfl⟩
  · exact ⟨_, rfl⟩

/-- A step row as the store of the drivers has it. -/
def StepsRow.toRow (r : StepsRow) : StepRow :=
  ⟨r.seq, r.kind, r.inputHash, (StepStatus.parse r.status).getD .pending, r.error,
    r.retryCount.toNat⟩

def ArtifactsRow.record (a : ArtifactsRow) : ArtifactRecord :=
  ⟨a.stepId, a.relPath, a.kind, a.sha256⟩

def RunDb.toRunDir (d : RunDb) : RunDir :=
  ⟨fun step => (d.row step).map StepsRow.toRow, d.artifacts.map ArtifactsRow.record, d.files⟩

private theorem started_toRow {r : StepsRow} (hstatus : ∃ s : StepStatus, r.status = s.asStr)
    (hretries : 0 ≤ r.retryCount) : r.started.toRow = RunDir.startedRow r.toRow := by
  have ⟨status, hs⟩ := hstatus
  have hstopped : r.Stopped ↔ status = .running ∨ status = .failed := by
    unfold StepsRow.Stopped
    rw [hs]
    cases status <;> decide
  have hcount : (r.retryCount + if r.Stopped then 1 else 0).toNat =
      r.retryCount.toNat + if status = .running ∨ status = .failed then 1 else 0 := by
    simp only [hstopped]
    split_ifs <;> omega
  unfold StepsRow.toRow StepsRow.started RunDir.startedRow
  simp only [hcount, hs, StepStatus.parse_asStr, Option.getD_some]
  rfl

private theorem toRunDir_updateStep (step : Text) {f : StepsRow → StepsRow} {g : StepRow → StepRow}
    {r : StepsRow} (hf : ∀ r, (f r).stepId = r.stepId) (hrow : d.row step = some r)
    (hg : (f r).toRow = g r.toRow) :
    (d.updateStep step f).2.toRunDir = d.toRunDir.setStep step (g r.toRow) := by
  have hrows : ∀ step', (d.updateStep step f).2.row step' = _ := row_updateStep d step hf
  unfold RunDb.toRunDir RunDir.setStep
  rw [RunDir.mk.injEq]
  refine ⟨funext fun step' => ?_, by rw [updateStep_steps], by rw [updateStep_steps]⟩
  rw [hrows, Function.update_apply]
  by_cases hs : step = step'
  · rw [if_pos hs, if_pos hs.symm, ← hs, hrow, Option.map_some, Option.map_some, hg]
  · rw [if_neg hs, if_neg (Ne.symm hs)]

variable {s : Store} {run : RunId}

private theorem updateRun_self (s : Store) (run : RunId) : s.updateRun run (s.runs run) = s := by
  unfold Store.updateRun
  rw [Function.update_eq_self]

private theorem updateRun_updateStep (hrun : s.runs run = d.toRunDir) {f : StepsRow → StepsRow}
    (g : StepRow → StepRow) (hf : ∀ r, (f r).stepId = r.stepId)
    (hg : ∀ r, d.row step = some r → (f r).toRow = g r.toRow) :
    (match (s.runs run).steps step with
      | none => (.error (unknownStep step), s)
      | some row => (.ok (), s.updateRun run ((s.runs run).setStep step (g row)))) =
      ((d.updateStep step f).1, s.updateRun run (d.updateStep step f).2.toRunDir) := by
  have hstep : (s.runs run).steps step = (d.row step).map StepsRow.toRow := by rw [hrun]; rfl
  rw [hstep, updateStep_fst]
  cases hrow : d.row step with
  | none =>
    rw [updateStep_steps, Table.update_of_none hrow, ← hrun, updateRun_self]
    rfl
  | some r =>
    rw [toRunDir_updateStep step hf hrow (hg r hrow), hrun]
    rfl

/-- Starting a step is what the drivers take it for. -/
theorem apply_beginStep (h : d.Valid) (hrun : s.runs run = d.toRunDir) :
    s.apply (.beginStep run step) =
      ((d.beginStep step).1, s.updateRun run (d.beginStep step).2.toRunDir) := by
  apply updateRun_updateStep hrun (f := StepsRow.started) RunDir.startedRow (fun _ => rfl)
  intro r hrow
  have hr := (Table.mem_of_select hrow).1
  exact started_toRow (h.statuses r hr) (h.retries r hr)

/-- Finishing a step is what the drivers take it for. -/
theorem apply_finishStep (hrun : s.runs run = d.toRunDir) (status : StepStatus)
    (error : Option Text) :
    s.apply (.finishStep run step status
        (error.map fun e => RunHandle.capStr e RunHandle.maxErrorLen)) =
      ((d.finishStep step status error).1,
        s.updateRun run (d.finishStep step status error).2.toRunDir) := by
  apply updateRun_updateStep hrun (f := StepsRow.finished status error)
    (fun row => { row with
      status := status
      error := error.map fun e => RunHandle.capStr e RunHandle.maxErrorLen }) (fun _ => rfl)
  intro r _
  simp [StepsRow.toRow, StepsRow.finished, StepStatus.parse_asStr]

private theorem toRunDir_append (row : StepsRow) (hnone : d.row row.stepId = none) :
    ({ d with steps := d.steps ++ [row] } : RunDb).toRunDir =
      d.toRunDir.setStep row.stepId row.toRow := by
  unfold RunDb.toRunDir RunDir.setStep
  rw [RunDir.mk.injEq]
  refine ⟨funext fun step => ?_, rfl, rfl⟩
  have happend : RunDb.row { d with steps := d.steps ++ [row] } step =
      if step = row.stepId then some row else d.row step := Table.select_append row hnone step
  rw [happend, Function.update_apply]
  by_cases hs : step = row.stepId
  · rw [if_pos hs, if_pos hs, Option.map_some]
  · rw [if_neg hs, if_neg hs]

private theorem sameInputs_iff_toRow (r : StepsRow) (seq : Int) (kind inputHash : Text) :
    r.SameInputs seq kind inputHash ↔
      ¬ (r.toRow.seq ≠ seq ∨ r.toRow.kind ≠ kind ∨ r.toRow.inputHash ≠ inputHash) := by
  rw [not_or, not_or, not_not, not_not, not_not]
  exact Iff.rfl

private theorem toRunDir_recordStep (d : RunDb) (step : Text) (seq : Int) (kind inputHash : Text) :
    (d.recordStep step seq kind inputHash).2.toRunDir =
      d.toRunDir.recordStep step seq kind inputHash := by
  have hstep : d.toRunDir.steps step = (d.row step).map StepsRow.toRow := rfl
  unfold RunDir.recordStep
  rcases recordStep_cases d step seq kind inputHash with ⟨hnone, heq⟩ | ⟨r, hrow, hcase⟩
  · rw [heq, hstep, hnone, Option.map_none]
    exact toRunDir_append (StepsRow.pending step seq kind inputHash) hnone
  rw [hstep, hrow, Option.map_some]
  rcases hcase with ⟨hsame, heq⟩ | ⟨hdiffer, heq⟩
  · simp only [heq, if_neg ((sameInputs_iff_toRow r seq kind inputHash).mp hsame)]
  · have hchanged := not_not.mp (mt (sameInputs_iff_toRow r seq kind inputHash).mpr hdiffer)
    have hupdate := toRunDir_updateStep step
      (f := fun r => StepsRow.pending r.stepId seq kind inputHash)
      (g := fun _ => ⟨seq, kind, inputHash, .pending, none, 0⟩) (fun _ => rfl) hrow rfl
    rw [updateStep_steps] at hupdate
    simp only [heq, if_pos hchanged]
    rw [← hupdate]
    unfold RunDb.toRunDir
    rw [RunDir.mk.injEq]
    refine ⟨rfl, ?_, rfl⟩
    rw [List.filter_map]
    rfl

/-- Recording a step is what the drivers take it for. -/
theorem apply_recordStep (hrun : s.runs run = d.toRunDir) (seq : Int)
    (kind inputHash : Text) :
    s.apply (.recordStep run step seq kind inputHash) =
      ((d.recordStep step seq kind inputHash).1,
        s.updateRun run (d.recordStep step seq kind inputHash).2.toRunDir) := by
  have hok : (d.recordStep step seq kind inputHash).1 = .ok () := by
    rcases recordStep_cases d step seq kind inputHash with ⟨_, heq⟩ | ⟨_, _, ⟨_, heq⟩ | ⟨_, heq⟩⟩
    · rw [heq]
    · rw [heq]
    · rw [heq]
  simp only [Store.apply, hrun]
  rw [toRunDir_recordStep, hok]

/-- Publishing is the two updates the drivers make. -/
theorem apply_publishArtifact [Digest] (hrun : s.runs run = d.toRunDir) {rel : Text}
    (hsafe : RunDb.safeJoin rel (UnixPath.components rel) = .ok ()) (bytes : Bytes) (kind : Text) :
    (s.apply (.writeArtifact run rel bytes)).2.apply
        (.insertArtifact run ⟨step, rel, kind, sha256Hex bytes⟩) =
      (.ok (), s.updateRun run (d.publishArtifact rel bytes kind step).2.toRunDir) := by
  have hdir : (d.publishArtifact rel bytes kind step).2.toRunDir =
      (d.toRunDir.setFile rel bytes).insertArtifact ⟨step, rel, kind, sha256Hex bytes⟩ := by
    unfold RunDb.publishArtifact
    rw [hsafe]
    unfold RunDb.toRunDir RunDir.insertArtifact RunDir.setFile Table.insertOrReplace
    rw [RunDir.mk.injEq]
    refine ⟨rfl, ?_, rfl⟩
    simp only [List.map_append, List.map_singleton, List.filter_map]
    congr 2
    apply List.filter_congr
    intro a _
    by_cases h₁ : a.stepId = step
    · by_cases h₂ : a.relPath = rel
      · simp [ArtifactsRow.key, ArtifactsRow.record, h₁, h₂]
      · simp [ArtifactsRow.key, ArtifactsRow.record, h₁, h₂]
    · simp [ArtifactsRow.key, ArtifactsRow.record, h₁]
  simp only [Store.apply, Store.updateRun, Function.update_self, Function.update_idem]
  rw [hdir, hrun]

private theorem recordStep_of_new {step : Text} (hnew : ∀ r ∈ d.steps, r.stepId ≠ step) (seq : Int)
    (kind inputHash : Text) : d.recordStep step seq kind inputHash =
      (.ok (), { d with steps := d.steps ++ [.pending step seq kind inputHash] }) := by
  have hnone : d.row step = none := Table.select_eq_none_iff.mpr hnew
  rcases recordStep_cases d step seq kind inputHash with ⟨-, heq⟩ | ⟨r, hrow, -⟩
  · exact heq
  · rw [hnone] at hrow
    cases hrow

/-- Recording a step that has a row keeps everything, or makes its row anew without artifacts. -/
private theorem recordStep_of_mem (h : d.Valid) {r : StepsRow} (hr : r ∈ d.steps) (seq : Int)
    (kind inputHash : Text) :
    (r.SameInputs seq kind inputHash →
      d.recordStep r.stepId seq kind inputHash = (.ok (), d)) ∧
    (¬ r.SameInputs seq kind inputHash →
      d.recordStep r.stepId seq kind inputHash = (.ok (), { d with
        steps := d.steps.map fun r' =>
          if r'.stepId = r.stepId then .pending r.stepId seq kind inputHash else r'
        artifacts := d.artifacts.filter (·.stepId ≠ r.stepId) })) := by
  have hrow : d.row r.stepId = some r := Table.select_of_mem h.steps hr
  rcases recordStep_cases d r.stepId seq kind inputHash with ⟨hnone, _⟩ | ⟨r', hrow', hcase⟩
  · rw [hnone] at hrow
    cases hrow
  rw [hrow, Option.some.injEq] at hrow'
  rw [← hrow'] at hcase
  rcases hcase with ⟨hsame, heq⟩ | ⟨hdiffer, heq⟩
  · exact ⟨fun _ => heq, fun h => absurd hsame h⟩
  · refine ⟨fun h => absurd h hdiffer, fun _ => ?_⟩
    rw [heq]
    congr 2
    apply List.map_congr_left
    intro r' _
    by_cases hid : r'.stepId = r.stepId
    · rw [if_pos hid, if_pos hid]
      exact congrArg (fun id => StepsRow.pending id seq kind inputHash) hid
    · rw [if_neg hid, if_neg hid]

private theorem retryCount_of_reset [Digest] {before later : List StepEvent} {e : StepEvent}
    {r : StepsRow} (hreset : e.isReset step ((d.after before).row step) = true)
    (hquiet : RunDb.resets step ((d.after before).next e) later = false)
    (hrow : (d.after (before ++ e :: later)).row step = some r) :
    r.retryCount = RunDb.retries step ((d.after before).next e) later := by
  have ⟨seq, kind, inputHash, hpending⟩ := row_of_reset hreset
  have ⟨r', hrow', hcount⟩ := retryCount_after hpending hquiet
  rw [after_split, hrow', Option.some.injEq] at hrow
  rw [← hrow, hcount]
  exact Int.zero_add _

private theorem step_of_mem (h : d.Valid) {r : StepsRow} (hr : r ∈ d.steps) :
    ∃ record, d.step r.stepId = .ok (some record) ∧
      (record.retryCount : Int) = r.retryCount % 2 ^ 32 := by
  have hfound : Table.select StepsRow.stepId r.stepId d.steps = some r :=
    Table.select_of_mem h.steps hr
  have ⟨status, hstatus⟩ := h.statuses r hr
  have hread : rowToStep r = .ok ⟨r.stepId, r.kind, r.inputHash, status, r.error,
      (r.retryCount % 2 ^ 32).toNat⟩ := by
    unfold rowToStep
    rw [hstatus, StepStatus.parse_asStr]
  have hstep : d.step r.stepId = .ok (some ⟨r.stepId, r.kind, r.inputHash, status, r.error,
      (r.retryCount % 2 ^ 32).toNat⟩) := by
    unfold RunDb.step
    simp only [hfound, hread]
    rfl
  exact ⟨_, hstep, Int.toNat_of_nonneg (Int.emod_nonneg _ (by decide))⟩

/-- The tables of a run after any history: one row per step and one per artifact of a step;
recording a new step appends its row, recording it again changes nothing, and recording it with
other inputs resets its row and drops its artifact rows; the retries are the starts from running or
failed since the last reset; the resume point is an open step of least number; a run is not created
over one with other inputs. -/
theorem step_store [Digest] (history : List StepEvent) (calls : List IndexCall) :
    let d := RunDb.fresh.after history
    let rows := calls.foldl IndexDb.call []
    (Table.Unique StepsRow.stepId d.steps ∧ Table.Unique ArtifactsRow.key d.artifacts) ∧
      (∀ r ∈ d.steps, ∀ seq kind inputHash,
        (r.SameInputs seq kind inputHash →
          d.recordStep r.stepId seq kind inputHash = (.ok (), d)) ∧
        (¬ r.SameInputs seq kind inputHash →
          d.recordStep r.stepId seq kind inputHash = (.ok (), { d with
            steps := d.steps.map fun r' =>
              if r'.stepId = r.stepId then .pending r.stepId seq kind inputHash else r'
            artifacts := d.artifacts.filter (·.stepId ≠ r.stepId) }))) ∧
      (∀ step, (∀ r ∈ d.steps, r.stepId ≠ step) → ∀ seq kind inputHash,
        d.recordStep step seq kind inputHash =
          (.ok (), { d with steps := d.steps ++ [.pending step seq kind inputHash] })) ∧
      (∀ r ∈ d.steps, ∃ before e later, history = before ++ e :: later ∧
        e.isReset r.stepId ((RunDb.fresh.after before).row r.stepId) = true ∧
        RunDb.resets r.stepId ((RunDb.fresh.after before).next e) later = false ∧
        r.retryCount = RunDb.retries r.stepId ((RunDb.fresh.after before).next e) later ∧
        ∃ record, d.step r.stepId = .ok (some record) ∧
          (record.retryCount : Int) = r.retryCount % 2 ^ 32) ∧
      ((∃ answer, d.ResumePoint answer) ∧ ∀ answer, d.ResumePoint answer →
        (answer = .ok none ∧ ∀ r ∈ d.steps, ¬ r.Open) ∨
          ∃ r ∈ d.steps, r.Open ∧ (∀ r' ∈ d.steps, r'.Open → r.seq ≤ r'.seq) ∧
            ∃ record, rowToStep r = .ok record ∧ answer = .ok (some record)) ∧
      ∀ existing ∈ rows, ∀ info : RunMeta, existing.runId = info.runId →
        RunStore.sameInputs existing info = false →
          ∃ e, rows.createRun info = (.error e, rows) := by
  intro d rows
  have hvalid : d.Valid := valid_fresh.after history
  refine ⟨⟨hvalid.steps, hvalid.artifacts⟩,
    fun r hr seq kind inputHash => recordStep_of_mem hvalid hr seq kind inputHash,
    fun step hnew seq kind inputHash => recordStep_of_new hnew seq kind inputHash, fun r hr => ?_,
    ⟨exists_resumePoint d, fun answer => resumePoint_cases hvalid⟩, ?_⟩
  · have hrow : d.row r.stepId = some r := Table.select_of_mem hvalid.steps hr
    have ⟨before, e, later, hsplit, hreset, hquiet⟩ := exists_last_reset (d := RunDb.fresh) rfl hrow
    have hlast : (RunDb.fresh.after (before ++ e :: later)).row r.stepId = some r := by
      rw [← hsplit]
      exact hrow
    exact ⟨before, e, later, hsplit, hreset, hquiet, retryCount_of_reset hreset hquiet hlast,
      step_of_mem hvalid hr⟩
  · intro existing hmem info hid hdiffer
    exact createRun_conflict (unique_indexAfter calls) hmem hid hdiffer

end Jitgen
