import Jitgen.Orchestrator.UnifiedDiff
import Mathlib.Algebra.Order.BigOperators.Group.List
import Mathlib.Algebra.Order.Ring.Nat

/-!
# Which unified diffs are applied

A well-formed diff of one text to another gives the other text unless it carries a marker or a
carriage return, starts from nothing, leaves a single blank line or inserts after a line.
-/

namespace Jitgen

open Text PatchApply

private theorem splitOn_joined {ls : List Text} (b : Bool) (hls : ∀ l ∈ ls, '\n' ∉ l)
    (hne : ls ≠ []) :
    (join "\n" ls ++ if b then ['\n'] else []).splitOn '\n' = ls ++ if b then [[]] else [] := by
  cases b with
  | false =>
    simp only [Bool.false_eq_true, if_false, List.append_nil]
    exact splitOn_join hls hne
  | true =>
    simp only [if_true]
    rw [List.splitOn_append_cons_self, List.splitOn_nil, splitOn_join hls hne]

private theorem finish_eq_join (old : Text) {out : List Text} (hjoin : join "\n" out ≠ []) :
    finish old out = join "\n" out ++ if decide (Terminated old) then ['\n'] else [] := by
  by_cases hterm : Terminated old
  · rw [finish_terminated hterm hjoin]
    simp [hterm]
  · rw [finish_not_terminated hterm]
    simp [hterm]

/-- With as many lines as `new` has, the result is `new` exactly when the lines and the final
newline are and `new` is not a single blank line. -/
private theorem finish_eq_iff {old new : Text} {out : List Text} (hfree : ∀ l ∈ out, '\n' ∉ l)
    (hlen : out.length = (splitLines new).length) :
    finish old out = new ↔ out = splitLines new ∧ new ≠ ['\n'] ∧
      (new ≠ [] → (Terminated old ↔ Terminated new)) := by
  by_cases hnew : new = []
  · subst hnew
    have hout : out = [] := List.length_eq_zero_iff.mp hlen
    rw [hout, finish_blank old rfl]
    simp [splitLines]
  have hlines : splitLines new ≠ [] := by
    rw [splitLines_eq]
    intro h
    exact hnew (rawLines_eq_nil (List.map_eq_nil_iff.mp h))
  have hout : out ≠ [] := by
    rintro rfl
    exact hlines (List.length_eq_zero_iff.mp hlen.symm)
  have htext := text_eq_join hnew
  rw [← splitLines_eq] at htext
  have hfree' : ∀ l ∈ splitLines new, '\n' ∉ l := fun l hl => newline_notMem_splitLines hl
  by_cases hblank : out = [[]]
  · rw [hblank, finish_blank old rfl]
    constructor
    · exact fun h => absurd h.symm hnew
    · intro h
      obtain ⟨hsame, hne, -⟩ := h
      rw [← hsame] at htext
      by_cases hterm : Terminated new
      · rw [if_pos hterm] at htext
        exact absurd htext hne
      · rw [if_neg hterm] at htext
        exact absurd htext hnew
  have hjoin := join_ne_nil hout hblank
  have hnotBlank : out = splitLines new → new ≠ ['\n'] := by
    intro hsame h
    rw [hsame, h] at hblank
    exact hblank rfl
  have hfinish := finish_eq_join old hjoin
  have htext' : new = join "\n" (splitLines new) ++
      if decide (Terminated new) then ['\n'] else [] := by
    simpa using htext
  constructor
  · intro h
    rw [hfinish] at h
    have hpieces := congrArg (List.splitOn '\n') (h.trans htext')
    rw [splitOn_joined _ hfree hout, splitOn_joined _ hfree' hlines] at hpieces
    obtain ⟨hsame, hlast⟩ := List.append_inj hpieces hlen
    refine ⟨hsame, hnotBlank hsame, fun _ => ?_⟩
    by_cases hold : Terminated old <;> by_cases hterm : Terminated new <;>
      simp [hold, hterm] at hlast ⊢
  · intro h
    obtain ⟨hsame, -, hterm⟩ := h
    have hagree : decide (Terminated old) = decide (Terminated new) :=
      decide_eq_decide.mpr (hterm hnew)
    rw [hfinish, hsame, hagree]
    exact htext'.symm

namespace UnifiedDiff

variable {old new : Text}

private theorem terminated_of_followed (d : UnifiedDiff old new) {init post : List DiffLine}
    {x : DiffLine} (hscript : d.script = init ++ x :: post)
    (hpost : (x.op.inOld = true ∧ oldLines post ≠ []) ∨ (x.op.inNew = true ∧ newLines post ≠ [])) :
    Terminated x.line := by
  rcases hpost with ⟨hop, hpost⟩ | ⟨hop, hpost⟩
  · have hold := d.old_lines
    change rawLines old = oldLines d.script at hold
    rw [hscript, oldLines_append, oldLines_cons, if_pos hop] at hold
    exact terminated_of_not_last hold hpost
  · have hnew := d.new_lines
    change rawLines new = newLines d.script at hnew
    rw [hscript, newLines_append, newLines_cons, if_pos hop] at hnew
    exact terminated_of_not_last hnew hpost

private theorem terminated_old_iff (d : UnifiedDiff old new) {init : List DiffLine} {z : DiffLine}
    (hscript : d.script = init ++ [z]) (hop : z.op.inOld = true) :
    Terminated old ↔ Terminated z.line := by
  have hold := d.old_lines
  change rawLines old = oldLines d.script at hold
  rw [hscript, oldLines_append, oldLines_cons, if_pos hop] at hold
  exact terminated_iff_last hold

private theorem terminated_new_iff (d : UnifiedDiff old new) {init : List DiffLine} {z : DiffLine}
    (hscript : d.script = init ++ [z]) (hop : z.op.inNew = true) :
    Terminated new ↔ Terminated z.line := by
  have hnew := d.new_lines
  change rawLines new = newLines d.script at hnew
  rw [hscript, newLines_append, newLines_cons, if_pos hop] at hnew
  exact terminated_iff_last hnew

private theorem mem_oldLines {s : List DiffLine} {z : DiffLine} (hz : z ∈ s)
    (hop : z.op.inOld = true) :
    oldLines s ≠ [] :=
  List.ne_nil_of_mem (List.mem_map_of_mem (List.mem_filter.mpr ⟨hz, hop⟩))

private theorem mem_newLines {s : List DiffLine} {z : DiffLine} (hz : z ∈ s)
    (hop : z.op.inNew = true) :
    newLines s ≠ [] :=
  List.ne_nil_of_mem (List.mem_map_of_mem (List.mem_filter.mpr ⟨hz, hop⟩))

private theorem exists_last (d : UnifiedDiff old new) (hne : d.hunks ≠ []) :
    ∃ init z, d.script = init ++ [z] ∧
      ((d.rest = [] ∧ ∃ h ∈ d.hunks, h.body.getLast? = some z) ∨
        (z.op = .context ∧ ∀ h ∈ d.hunks, ∀ x ∈ h.body, x ∈ init)) := by
  rcases List.eq_nil_or_concat d.rest with hrest | ⟨rest, l, hrest⟩
  · obtain ⟨hs, h, hhunks⟩ := (List.eq_nil_or_concat d.hunks).resolve_left hne
    obtain ⟨body, z, hbody⟩ := (List.eq_nil_or_concat h.body).resolve_left h.body_nonempty
    refine ⟨hs.flatMap DiffHunk.script ++ h.skipped.map .unchanged ++ body, z, ?_,
      .inl ⟨hrest, h, by simp [hhunks], by simp [hbody]⟩⟩
    rw [script, hrest, hhunks]
    simp [DiffHunk.script, hbody]
  · refine ⟨d.hunks.flatMap DiffHunk.script ++ rest.map .unchanged, .unchanged l, ?_,
      .inr ⟨rfl, fun h hh x hx => ?_⟩⟩
    · rw [script, hrest]
      simp
    · exact List.mem_append_left _ (List.mem_flatMap.mpr ⟨h, hh, List.mem_append_right _ hx⟩)

/-- If every body ends with a newline and the two texts agree on their final newline, then no line
of a hunk lacks it. -/
private theorem terminated_of_agree (d : UnifiedDiff old new)
    (hclosed : ∀ h ∈ d.hunks, Closed h.body)
    (hagree : new ≠ [] → (Terminated old ↔ Terminated new)) :
    ∀ h ∈ d.hunks, ∀ x ∈ h.body, Terminated x.line := by
  intro h hh x hx
  by_contra hopen
  obtain ⟨init, z, hscript, hz⟩ := d.exists_last (List.ne_nil_of_mem hh)
  have hx' : x ∈ init := by
    rcases hz with ⟨hrest, k, hk, hlast⟩ | ⟨-, hbody⟩
    · have hmem := d.body_mem_script hh hx
      rw [hscript] at hmem
      rcases List.mem_append.mp hmem with hmem | hmem
      · exact hmem
      · rw [List.mem_singleton.mp hmem] at hopen
        exact absurd (hclosed k hk z hlast) hopen
    · exact hbody h hh x hx
  obtain ⟨before, after, rfl⟩ := List.append_of_mem hx'
  have hsplit : d.script = before ++ x :: (after ++ [z]) := by
    rw [hscript, List.append_assoc, List.cons_append]
  have hzmem : z ∈ after ++ [z] := by simp
  have hside : ¬ (x.op.inOld = true ∧ z.op.inOld = true) ∧
      ¬ (x.op.inNew = true ∧ z.op.inNew = true) := by
    constructor
    · intro h
      exact hopen (d.terminated_of_followed hsplit (.inl ⟨h.1, mem_oldLines hzmem h.2⟩))
    · intro h
      exact hopen (d.terminated_of_followed hsplit (.inr ⟨h.1, mem_newLines hzmem h.2⟩))
  have hzterm : Terminated z.line := by
    rcases hz with ⟨-, k, hk, hlast⟩ | ⟨hcontext, -⟩
    · exact hclosed k hk z hlast
    · rw [hcontext] at hside
      cases hop : x.op <;> simp [hop, LineOp.inOld, LineOp.inNew] at hside
  cases hxop : x.op with
  | context => cases hzop : z.op <;> simp [hxop, hzop, LineOp.inOld, LineOp.inNew] at hside
  | removed =>
    have hzop : z.op = .added := by
      cases hzop : z.op <;> simp [hxop, hzop, LineOp.inOld] at hside ⊢
    have hafter : oldLines (after ++ [z]) = [] := by
      by_contra hne
      exact hopen (d.terminated_of_followed hsplit (.inl ⟨by simp [hxop, LineOp.inOld], hne⟩))
    have hold := d.old_lines
    change rawLines old = oldLines d.script at hold
    rw [hsplit, oldLines_append, oldLines_cons, if_pos (by simp [hxop, LineOp.inOld]), hafter]
      at hold
    have holdopen : ¬ Terminated old := mt (terminated_iff_last hold).mp hopen
    have hnewterm := (d.terminated_new_iff hscript (by simp [hzop, LineOp.inNew])).mpr hzterm
    have hnewne : new ≠ [] := by
      rintro rfl
      simp [Terminated] at hnewterm
    exact holdopen ((hagree hnewne).mpr hnewterm)
  | added =>
    have hzop : z.op = .removed := by
      cases hzop : z.op <;> simp [hxop, hzop, LineOp.inNew] at hside ⊢
    have hafter : newLines (after ++ [z]) = [] := by
      by_contra hne
      exact hopen (d.terminated_of_followed hsplit (.inr ⟨by simp [hxop, LineOp.inNew], hne⟩))
    have hnew := d.new_lines
    change rawLines new = newLines d.script at hnew
    rw [hsplit, newLines_append, newLines_cons, if_pos (by simp [hxop, LineOp.inNew]), hafter]
      at hnew
    have hnewopen : ¬ Terminated new := mt (terminated_iff_last hnew).mp hopen
    have holdterm := (d.terminated_old_iff hscript (by simp [hzop, LineOp.inOld])).mpr hzterm
    have hnewne : new ≠ [] := by
      rintro rfl
      simp [rawLines] at hnew
    exact hnewopen ((hagree hnewne).mp holdterm)

private theorem eq_of_no_hunks (d : UnifiedDiff old new) (hnone : d.hunks = []) : new = old := by
  have hold := d.old_lines
  have hnew := d.new_lines
  rw [hnone] at hold hnew
  rw [← rawLines_flatten new, ← rawLines_flatten old, hold, hnew]
  simp

/-- If every line of a hunk has its newline, the texts agree on the final one. -/
private theorem agree_of_terminated (d : UnifiedDiff old new)
    (hterm : ∀ h ∈ d.hunks, ∀ x ∈ h.body, Terminated x.line) (hold : d.hunks ≠ [] → old ≠ [])
    (hnew : new ≠ []) : Terminated old ↔ Terminated new := by
  by_cases hnone : d.hunks = []
  · rw [d.eq_of_no_hunks hnone]
  obtain ⟨init, z, hscript, hz⟩ := d.exists_last hnone
  by_cases hcontext : z.op = .context
  · rw [d.terminated_old_iff hscript (by rw [hcontext]; rfl),
      d.terminated_new_iff hscript (by rw [hcontext]; rfl)]
  · obtain ⟨hrest, k, hk, hlast⟩ := hz.resolve_right fun h => hcontext h.1
    have hall : ∀ x ∈ d.script, Terminated x.line := by
      intro x hx
      by_cases hxop : x.op = .context
      · rw [hscript] at hx
        rcases List.mem_append.mp hx with hx | hx
        · obtain ⟨before, after, rfl⟩ := List.append_of_mem hx
          have hsplit : d.script = before ++ x :: (after ++ [z]) := by
            rw [hscript, List.append_assoc, List.cons_append]
          have hzmem : z ∈ after ++ [z] := by simp
          refine d.terminated_of_followed hsplit ?_
          by_cases hzop : z.op.inOld = true
          · exact .inl ⟨by rw [hxop]; rfl, mem_oldLines hzmem hzop⟩
          · refine .inr ⟨by rw [hxop]; rfl, mem_newLines hzmem ?_⟩
            cases h : z.op <;> simp_all [LineOp.inOld, LineOp.inNew]
        · rw [List.mem_singleton.mp hx] at hxop
          exact absurd hxop hcontext
      · rcases List.mem_append.mp hx with hx | hx
        · obtain ⟨h, hh, hx⟩ := List.mem_flatMap.mp hx
          rcases List.mem_append.mp hx with hx | hx
          · obtain ⟨l, -, rfl⟩ := List.mem_map.mp hx
            exact absurd rfl hxop
          · exact hterm h hh x hx
        · obtain ⟨l, -, rfl⟩ := List.mem_map.mp hx
          exact absurd rfl hxop
    have hlines : ∀ (s : Text) (side : LineOp → Bool), s ≠ [] →
        rawLines s = (d.script.filter fun x => side x.op).map DiffLine.line → Terminated s := by
      intro s side hs hraw
      obtain ⟨init, l, hinit⟩ := (List.eq_nil_or_concat (rawLines s)).resolve_left
        fun h => hs (rawLines_eq_nil h)
      rw [List.concat_eq_append] at hinit
      have hl : l ∈ rawLines s := by simp [hinit]
      rw [hraw] at hl
      obtain ⟨x, hx, rfl⟩ := List.mem_map.mp hl
      exact (terminated_iff_last hinit).mpr (hall x (List.mem_of_mem_filter hx))
    exact iff_of_true (hlines old _ (hold hnone) d.old_lines) (hlines new _ hnew d.new_lines)

/-- If the texts agree on their final newline and every line of a hunk has its own, then a hunk
needs an old text that is not empty. -/
private theorem old_nonempty_of_agree (d : UnifiedDiff old new)
    (hterm : ∀ h ∈ d.hunks, ∀ x ∈ h.body, Terminated x.line)
    (hagree : new ≠ [] → (Terminated old ↔ Terminated new)) (hne : d.hunks ≠ []) : old ≠ [] := by
  rintro rfl
  have hold : oldLines d.script = [] := d.old_lines.symm
  obtain ⟨init, z, hscript, hz⟩ := d.exists_last hne
  have hadded : z.op = .added := by
    by_contra hop
    refine mem_oldLines (s := d.script) (z := z) (by simp [hscript]) ?_ hold
    cases h : z.op <;> simp_all [LineOp.inOld]
  have hzterm : Terminated z.line := by
    rcases hz with ⟨-, k, hk, hlast⟩ | ⟨hcontext, -⟩
    · exact hterm k hk z (List.mem_of_getLast? hlast)
    · rw [hcontext] at hadded
      cases hadded
  have hnewterm := (d.terminated_new_iff hscript (by rw [hadded]; rfl)).mpr hzterm
  have hnew : new ≠ [] := by
    rintro rfl
    simp [Terminated] at hnewterm
  have := (hagree hnew).mpr hnewterm
  simp [Terminated] at this

/-- The edit as it is read: a carriage return before a newline counts as part of the newline. -/
def strip (e : Edit Text) : Edit Text := ⟨e.start, e.old.map stripCr, e.new.map stripCr⟩

private theorem readFrom_edits (hs : List DiffHunk) (before : Nat) :
    (readFrom before hs).map ReadHunk.edit = ((editsFrom before hs).map strip).map Edit.earlier := by
  induction hs generalizing before with
  | nil => rfl
  | cons h hs ih =>
    have hread : ReadHunk.edit ⟨h.header (before + h.skipped.length), h.bodyLines.map stripCr⟩ =
        (strip ⟨before + h.skipped.length, (oldLines h.body).map chomp,
          (newLines h.body).map chomp⟩).earlier := by
      unfold ReadHunk.edit DiffHunk.bodyLines
      rw [oldSide_render, newSide_render]
      have hold : ∀ ls : List Text, ls.map readLine = (ls.map chomp).map stripCr := fun ls => by
        rw [List.map_map]
        rfl
      rw [hold, hold]
      unfold strip DiffHunk.header DiffHunk.rangeStart
      by_cases hempty : oldLines h.body = []
      · have hcount : h.oldCount = 0 := by simp [DiffHunk.oldCount, hempty]
        rw [Edit.earlier_of_nil (by simp [hempty])]
        simp [hcount]
      · have hcount : h.oldCount ≠ 0 := by simpa [DiffHunk.oldCount] using hempty
        rw [Edit.earlier_of_ne_nil (by simpa using hempty)]
        simp [hcount]
    rw [readFrom, editsFrom, List.map_cons, List.map_cons, List.map_cons, hread, ih]

private theorem readFrom_starts (hs : List DiffHunk) (before : Nat) :
    ∀ h ∈ readFrom before hs, h.header.oldStart = 0 → h.header.oldCount = 0 := by
  induction hs generalizing before with
  | nil => simp [readFrom]
  | cons h hs ih =>
    rw [readFrom]
    refine List.forall_mem_cons.mpr ⟨?_, ih _⟩
    simp only [DiffHunk.header, DiffHunk.rangeStart]
    split
    · exact fun _ => by assumption
    · omega

/-- The rendered diff is applied to `old` exactly when its bodies end with newlines and the edits,
as they are read, fit. -/
private theorem apply_render_eq_ok (d : UnifiedDiff old new) {result : Text} :
    applyUnifiedDiff old d.render = .ok result ↔ (∀ h ∈ d.hunks, Closed h.body) ∧
      Edit.Applicable (splitLines old) ((d.edits.map strip).map Edit.earlier) ∧
      finish old (Edit.splice (splitLines old) 0 ((d.edits.map strip).map Edit.earlier)) =
        result := by
  rw [applyUnifiedDiff_eq_ok, d.readDiff_render]
  by_cases hclosed : ∀ h ∈ d.hunks, Closed h.body
  · rw [if_pos hclosed]
    have hedits : (readFrom 0 d.hunks).map ReadHunk.edit = (d.edits.map strip).map Edit.earlier :=
      readFrom_edits d.hunks 0
    constructor
    · intro h
      obtain ⟨_, heq, -, hfits, hresult⟩ := h
      cases heq
      rw [hedits] at hfits hresult
      exact ⟨hclosed, hfits, hresult⟩
    · intro h
      obtain ⟨-, hfits, hresult⟩ := h
      refine ⟨_, rfl, readFrom_starts _ _, ?_, ?_⟩
      · rwa [hedits]
      · rwa [hedits]
  · simp [hclosed]

private theorem eq_of_sum_eq {β : Type} {l : List β} {f g : β → Nat} (hle : ∀ x ∈ l, f x ≤ g x)
    (hsum : (l.map f).sum = (l.map g).sum) : ∀ x ∈ l, f x = g x := by
  induction l with
  | nil => simp
  | cons x l ih =>
    have hx := hle x (by simp)
    have htail : (l.map f).sum ≤ (l.map g).sum :=
      List.sum_le_sum fun y hy => hle y (by simp [hy])
    rw [List.map_cons, List.map_cons, List.sum_cons, List.sum_cons] at hsum
    refine List.forall_mem_cons.mpr ⟨by omega, ih (fun y hy => hle y (by simp [hy])) (by omega)⟩

private theorem map_stripCr_eq_self {ls : List Text} (h : ls.map stripCr = ls) :
    ∀ l ∈ ls, l.getLast? ≠ some '\r' := by
  intro l hl
  rw [← stripCr_eq_self_iff]
  exact List.map_eq_map_iff.mp (h.trans (List.map_id ls).symm) l hl

/-- When the edits, as they are read, make the new lines of the old ones, no line was cut. -/
private theorem no_cr_of_splice (d : UnifiedDiff old new)
    (hfits : Edit.Applicable (splitLines old) ((d.edits.map strip).map Edit.earlier))
    (hsplice : Edit.splice (splitLines old) 0 ((d.edits.map strip).map Edit.earlier) =
      splitLines new) :
    ∀ e ∈ d.edits, (∀ l ∈ e.old, l.getLast? ≠ some '\r') ∧
      ∀ l ∈ e.new, l.getLast? ≠ some '\r' := by
  obtain ⟨hdeclared, hnew⟩ := d.edits_applicable
  have hold : ∀ e ∈ d.edits, e.old.map stripCr = e.old := by
    intro e he
    by_cases hnil : e.old = []
    · simp [hnil]
    · have hread := hfits.replaces (strip e).earlier
        (List.mem_map_of_mem (List.mem_map_of_mem he))
      rw [Edit.earlier_of_ne_nil (by simpa [strip] using hnil)] at hread
      exact List.prefix_of_prefix_length_le hread (hdeclared.replaces e he)
        (by simp [strip]) |>.eq_of_length (by simp [strip])
  have htotal := Edit.splice_total (fun l => l.count '\r') hfits (c := 0) (by simp)
  have htotal' := Edit.splice_total (fun l => l.count '\r') hdeclared (c := 0) (by simp)
  rw [hsplice] at htotal
  rw [hnew] at htotal'
  have hremoved : (((d.edits.map strip).map Edit.earlier).map
      fun e => (e.old.map fun l => l.count '\r').sum) =
      d.edits.map fun e => (e.old.map fun l => l.count '\r').sum := by
    rw [List.map_map, List.map_map]
    refine List.map_congr_left fun e he => ?_
    simp [strip, hold e he]
  have hadded : (((d.edits.map strip).map Edit.earlier).map
      fun e => (e.new.map fun l => l.count '\r').sum) =
      d.edits.map fun e => (e.new.map fun l => (stripCr l).count '\r').sum := by
    rw [List.map_map, List.map_map]
    refine List.map_congr_left fun e _ => ?_
    simp [strip, Function.comp_def]
  rw [hremoved, hadded] at htotal
  have hsame := eq_of_sum_eq
    (f := fun e : Edit Text => (e.new.map fun l => (stripCr l).count '\r').sum)
    (g := fun e => (e.new.map fun l => l.count '\r').sum)
    (fun e _ => List.sum_le_sum fun l _ => count_stripCr_le l) (l := d.edits) (by omega)
  intro e he
  refine ⟨map_stripCr_eq_self (hold e he), fun l hl hcr => ?_⟩
  have hcount := eq_of_sum_eq (f := fun l => (stripCr l).count '\r')
    (g := fun l : Text => l.count '\r') (fun l _ => count_stripCr_le l) (hsame e he) l hl
  exact absurd hcount (count_stripCr_lt hcr).ne

/-- No line of a hunk lacks its newline or ends with a carriage return, `old` is not empty when
there is a hunk, `new` is not a single blank line, and a pure insertion after a line does not follow
a hunk that ends there and only repeats the line. -/
structure Supported (d : UnifiedDiff old new) : Prop where
  terminated : ∀ h ∈ d.hunks, ∀ x ∈ h.body, Terminated x.line
  no_cr : ∀ h ∈ d.hunks, ∀ x ∈ h.body, (chomp x.line).getLast? ≠ some '\r'
  old_nonempty : d.hunks ≠ [] → old ≠ []
  new_not_blank : new ≠ ['\n']
  insertion_apart : d.edits.Pairwise fun e f => f.old = [] → e.old ≠ [] → e.stop ≠ f.start
  repeats : Edit.Repeats (splitLines old) d.edits

private theorem mem_editsFrom {hs : List DiffHunk} {before : Nat} {e : Edit Text}
    (he : e ∈ editsFrom before hs) :
    ∃ h ∈ hs, e.old = (oldLines h.body).map chomp ∧ e.new = (newLines h.body).map chomp := by
  induction hs generalizing before with
  | nil => simp [editsFrom] at he
  | cons h hs ih =>
    rw [editsFrom] at he
    rcases List.mem_cons.mp he with rfl | he
    · exact ⟨h, by simp, rfl, rfl⟩
    · obtain ⟨k, hk, hside⟩ := ih he
      exact ⟨k, by simp [hk], hside⟩

private theorem exists_edit {hs : List DiffHunk} {h : DiffHunk} (hh : h ∈ hs) (before : Nat) :
    ∃ e ∈ editsFrom before hs, e.old = (oldLines h.body).map chomp ∧
      e.new = (newLines h.body).map chomp := by
  induction hs generalizing before with
  | nil => simp at hh
  | cons k hs ih =>
    rw [editsFrom]
    rcases List.mem_cons.mp hh with rfl | hh
    · exact ⟨_, List.mem_cons_self, rfl, rfl⟩
    · obtain ⟨e, he, hside⟩ := ih hh (before + k.skipped.length + k.oldCount)
      exact ⟨e, by simp [he], hside⟩

private theorem mem_side {body : List DiffLine} {x : DiffLine} (hx : x ∈ body) :
    x.line ∈ oldLines body ∨ x.line ∈ newLines body := by
  by_cases hop : x.op.inOld
  · exact .inl (List.mem_map_of_mem (List.mem_filter.mpr ⟨hx, hop⟩))
  · refine .inr (List.mem_map_of_mem (List.mem_filter.mpr ⟨hx, ?_⟩))
    cases h : x.op <;> simp_all [LineOp.inOld, LineOp.inNew]

/-- The lines of the hunks are those of the edits. -/
private theorem no_cr_iff (d : UnifiedDiff old new) :
    (∀ h ∈ d.hunks, ∀ x ∈ h.body, (chomp x.line).getLast? ≠ some '\r') ↔
      ∀ e ∈ d.edits, (∀ l ∈ e.old, l.getLast? ≠ some '\r') ∧
        ∀ l ∈ e.new, l.getLast? ≠ some '\r' := by
  constructor
  · intro hbody e he
    obtain ⟨h, hh, hold, hnew⟩ := mem_editsFrom he
    have hside : ∀ (p : DiffLine → Bool), ∀ l ∈ ((h.body.filter p).map DiffLine.line).map chomp,
        l.getLast? ≠ some '\r' := by
      intro p l hl
      obtain ⟨raw, hraw, rfl⟩ := List.mem_map.mp hl
      obtain ⟨x, hx, rfl⟩ := List.mem_map.mp hraw
      exact hbody h hh x (List.mem_of_mem_filter hx)
    rw [hold, hnew]
    exact ⟨hside _, hside _⟩
  · intro hedits h hh x hx
    obtain ⟨e, he, hold, hnew⟩ := exists_edit hh 0
    obtain ⟨hremoved, hadded⟩ := hedits e he
    rw [hold] at hremoved
    rw [hnew] at hadded
    rcases mem_side hx with hside | hside
    · exact hremoved _ (List.mem_map_of_mem hside)
    · exact hadded _ (List.mem_map_of_mem hside)

private theorem strip_edits (d : UnifiedDiff old new)
    (hcr : ∀ e ∈ d.edits, (∀ l ∈ e.old, l.getLast? ≠ some '\r') ∧
      ∀ l ∈ e.new, l.getLast? ≠ some '\r') :
    d.edits.map strip = d.edits := by
  have hline : ∀ ls : List Text, (∀ l ∈ ls, l.getLast? ≠ some '\r') → ls.map stripCr = ls := by
    intro ls hls
    exact (List.map_congr_left fun l hl => (stripCr_eq_self_iff l).mpr (hls l hl)).trans
      (List.map_id ls)
  refine (List.map_congr_left fun e he => ?_).trans (List.map_id d.edits)
  obtain ⟨hold, hnew⟩ := hcr e he
  unfold strip
  rw [hline _ hold, hline _ hnew]
  rfl

private theorem newline_notMem_splice (d : UnifiedDiff old new) :
    ∀ l ∈ Edit.splice (splitLines old) 0 ((d.edits.map strip).map Edit.earlier), '\n' ∉ l := by
  intro l hl
  rcases Edit.mem_splice hl with hl | ⟨f, hf, hl⟩
  · exact newline_notMem_splitLines hl
  · obtain ⟨g, hg, rfl⟩ := List.mem_map.mp hf
    obtain ⟨e, he, rfl⟩ := List.mem_map.mp hg
    obtain ⟨h, hh, -, hnew⟩ := mem_editsFrom he
    rw [Edit.earlier_new] at hl
    obtain ⟨content, hcontent, rfl⟩ := List.mem_map.mp hl
    rw [hnew] at hcontent
    obtain ⟨raw, hraw, rfl⟩ := List.mem_map.mp hcontent
    obtain ⟨x, hx, rfl⟩ := List.mem_map.mp hraw
    have hmem := d.line_mem (d.body_mem_script hh (List.mem_of_mem_filter hx))
    have hfree : '\n' ∉ chomp x.line := by
      rcases hmem with hmem | hmem
      · exact newline_notMem_chomp hmem
      · exact newline_notMem_chomp hmem
    exact fun h => hfree (mem_of_mem_stripCr h)

end UnifiedDiff

/-- A unified diff of `old` to `new` gives `new` if and only if it is supported. -/
theorem applyUnifiedDiff_complete_iff {old new : Text} (d : UnifiedDiff old new) :
    applyUnifiedDiff old d.render = .ok new ↔ d.Supported := by
  obtain ⟨hdeclared, hsplice⟩ := d.edits_applicable
  have hfree : ∀ l ∈ splitLines new, '\n' ∉ l := fun l hl => newline_notMem_splitLines hl
  rw [d.apply_render_eq_ok]
  constructor
  · intro h
    obtain ⟨hclosed, hfits, hresult⟩ := h
    have hlen := Edit.splice_length hfits (c := 0) (by simp)
    have hlen' := Edit.splice_length hdeclared (c := 0) (by simp)
    have hold : ((d.edits.map UnifiedDiff.strip).map Edit.earlier).map (fun e => e.old.length) =
        d.edits.map fun e => e.old.length := by
      simp [UnifiedDiff.strip]
    have hnew : ((d.edits.map UnifiedDiff.strip).map Edit.earlier).map (fun e => e.new.length) =
        d.edits.map fun e => e.new.length := by
      simp [UnifiedDiff.strip]
    rw [hold, hnew] at hlen
    rw [hsplice] at hlen'
    obtain ⟨hsame, hblank, hagree⟩ := (finish_eq_iff (d.newline_notMem_splice) (by omega)).mp hresult
    have hcr := d.no_cr_of_splice hfits hsame
    rw [d.strip_edits hcr] at hfits hsame
    have hterm := d.terminated_of_agree hclosed hagree
    exact ⟨hterm, d.no_cr_iff.mpr hcr, d.old_nonempty_of_agree hterm hagree, hblank,
      (Edit.applicable_earlier_iff hdeclared).mp hfits,
      (Edit.splice_earlier_iff hdeclared hfits).mp (hsame.trans hsplice.symm)⟩
  · intro hsupported
    have hclosed : ∀ h ∈ d.hunks, Closed h.body := fun h hh x hx =>
      hsupported.terminated h hh x (List.mem_of_getLast? hx)
    rw [d.strip_edits (d.no_cr_iff.mp hsupported.no_cr)]
    have hfits := (Edit.applicable_earlier_iff hdeclared).mpr hsupported.insertion_apart
    have hsame := (Edit.splice_earlier_iff hdeclared hfits).mpr hsupported.repeats
    refine ⟨hclosed, hfits, ?_⟩
    rw [hsame, hsplice]
    exact (finish_eq_iff hfree rfl).mpr ⟨rfl, hsupported.new_not_blank, fun hnew =>
      d.agree_of_terminated hsupported.terminated hsupported.old_nonempty hnew⟩

/-- A diff without context that inserts a line at the end. -/
def appendedLine : UnifiedDiff "a\nb\n" "a\nb\nc\n" where
  preamble := []
  hunks := [{
    skipped := ["a\n", "b\n"]
    body := [⟨.added, "c\n"⟩]
    omitOldCount := false
    omitNewCount := true
    heading := []
    body_nonempty := by simp
    heading_line := by simp }]
  rest := []
  preamble_header := by simp
  old_lines := by decide
  new_lines := by decide
  old_fits := by decide
  new_fits := by decide

/-- The inserted line comes before the line that it should follow. -/
theorem appendedLine_misplaced :
    appendedLine.render = "@@ -2,0 +3 @@\n+c\n" ∧
      applyUnifiedDiff "a\nb\n" appendedLine.render = .ok ("a\nc\nb\n" : Text) ∧
      applyUnifiedDiff "a\nb\n" appendedLine.render ≠ .ok ("a\nb\nc\n" : Text) := by
  have happ : applyUnifiedDiff "a\nb\n" appendedLine.render = .ok ("a\nc\nb\n" : Text) := by
    decide +kernel
  refine ⟨by decide +kernel, happ, ?_⟩
  rw [happ]
  decide +kernel

end Jitgen
