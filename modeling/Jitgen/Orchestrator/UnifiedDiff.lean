import Jitgen.Framework.Numerals
import Jitgen.Orchestrator.PatchReading

/-!
# Well-formed unified diffs

A diff of one text to another is the list of its hunks, each with the unchanged lines before it.
The positions and counts of its headers are computed from them.
-/

namespace Jitgen

open Text PatchApply

inductive LineOp where
  | context
  | removed
  | added
  deriving DecidableEq

namespace LineOp

def sign : LineOp → Char
  | context => ' '
  | removed => '-'
  | added => '+'

def inOld : LineOp → Bool
  | context | removed => true
  | added => false

def inNew : LineOp → Bool
  | context | added => true
  | removed => false

end LineOp

/-- A line with its newline, which only the last line of a text may lack. -/
structure DiffLine where
  op : LineOp
  line : Text
  deriving DecidableEq

def DiffLine.unchanged (line : Text) : DiffLine := ⟨.context, line⟩

def oldLines (script : List DiffLine) : List Text := (script.filter (·.op.inOld)).map DiffLine.line

def newLines (script : List DiffLine) : List Text := (script.filter (·.op.inNew)).map DiffLine.line

def noNewlineMarker : Text := "\\ No newline at end of file"

/-- The signed line, followed by a marker when it has no newline. -/
def DiffLine.render (d : DiffLine) : List Text :=
  if Terminated d.line then [d.op.sign :: chomp d.line]
  else [d.op.sign :: chomp d.line, noNewlineMarker]

structure DiffHunk where
  skipped : List Text
  body : List DiffLine
  omitOldCount : Bool
  omitNewCount : Bool
  heading : Text
  body_nonempty : body ≠ []
  heading_line : '\n' ∉ heading

namespace DiffHunk

/-- The lines up to the end of the hunk. -/
def script (h : DiffHunk) : List DiffLine := h.skipped.map .unchanged ++ h.body

def oldCount (h : DiffHunk) : Nat := (oldLines h.body).length

def newCount (h : DiffHunk) : Nat := (newLines h.body).length

/-- The number that a header gives for a range: of its first line, or of the line before an empty
range. -/
def rangeStart (before count : Nat) : Nat := if count = 0 then before else before + 1

/-- A count of one may be omitted. -/
def rangeText (before count : Nat) (omitted : Bool) : Text :=
  ofNat (rangeStart before count) ++ if omitted && count = 1 then [] else ',' :: ofNat count

def headerLine (h : DiffHunk) (oldBefore newBefore : Nat) : Text :=
  "@@ -" ++ (rangeText oldBefore h.oldCount h.omitOldCount ++ " +" ++
    (rangeText newBefore h.newCount h.omitNewCount ++ " @@" ++ h.heading))

def bodyLines (h : DiffHunk) : List Text := h.body.flatMap DiffLine.render

end DiffHunk

/-- The lines of the hunks, after as many lines of the old and of the new text. -/
def renderHunks : (oldBefore newBefore : Nat) → List DiffHunk → List Text
  | _, _, [] => []
  | oldBefore, newBefore, h :: hs =>
    h.headerLine (oldBefore + h.skipped.length) (newBefore + h.skipped.length) ::
      (h.bodyLines ++ renderHunks (oldBefore + h.skipped.length + h.oldCount)
        (newBefore + h.skipped.length + h.newCount) hs)

/-- The declared edits, without terminators. -/
def editsFrom : (before : Nat) → List DiffHunk → List (Edit Text)
  | _, [] => []
  | before, h :: hs =>
    ⟨before + h.skipped.length, (oldLines h.body).map chomp, (newLines h.body).map chomp⟩ ::
      editsFrom (before + h.skipped.length + h.oldCount) hs

/-- A unified diff of `old` to `new`. -/
structure UnifiedDiff (old new : Text) where
  preamble : List Text
  hunks : List DiffHunk
  rest : List Text
  preamble_header : ∀ l ∈ preamble, isFileHeader l = true ∧ '\n' ∉ l
  old_lines : rawLines old = oldLines (hunks.flatMap DiffHunk.script ++ rest.map .unchanged)
  new_lines : rawLines new = newLines (hunks.flatMap DiffHunk.script ++ rest.map .unchanged)
  old_fits : (rawLines old).length < 2 ^ 63
  new_fits : (rawLines new).length < 2 ^ 63

namespace UnifiedDiff

variable {old new : Text}

/-- All lines of the old and the new text, in order. -/
def script (d : UnifiedDiff old new) : List DiffLine :=
  d.hunks.flatMap DiffHunk.script ++ d.rest.map .unchanged

def render (d : UnifiedDiff old new) : Text :=
  unlines (d.preamble ++ renderHunks 0 0 d.hunks)

def edits (d : UnifiedDiff old new) : List (Edit Text) := editsFrom 0 d.hunks

end UnifiedDiff

@[simp] theorem oldLines_append (s t : List DiffLine) :
    oldLines (s ++ t) = oldLines s ++ oldLines t := by
  simp [oldLines]

@[simp] theorem newLines_append (s t : List DiffLine) :
    newLines (s ++ t) = newLines s ++ newLines t := by
  simp [newLines]

@[simp] theorem oldLines_unchanged (ls : List Text) : oldLines (ls.map .unchanged) = ls := by
  induction ls with
  | nil => rfl
  | cons l ls ih =>
    rw [List.map_cons, ← List.singleton_append, oldLines_append, ih]
    rfl

@[simp] theorem newLines_unchanged (ls : List Text) : newLines (ls.map .unchanged) = ls := by
  induction ls with
  | nil => rfl
  | cons l ls ih =>
    rw [List.map_cons, ← List.singleton_append, newLines_append, ih]
    rfl

theorem oldLines_cons (d : DiffLine) (s : List DiffLine) :
    oldLines (d :: s) = if d.op.inOld then d.line :: oldLines s else oldLines s := by
  by_cases h : d.op.inOld <;> simp [oldLines, h]

theorem newLines_cons (d : DiffLine) (s : List DiffLine) :
    newLines (d :: s) = if d.op.inNew then d.line :: newLines s else newLines s := by
  by_cases h : d.op.inNew <;> simp [newLines, h]

/-- The edits fit the old lines and make the new lines of them. -/
private theorem editsFrom_applicable (hs : List DiffHunk) (before rest : List Text) :
    let orig := before ++ ((oldLines (hs.flatMap DiffHunk.script)).map chomp ++ rest)
    Edit.Applicable orig (editsFrom before.length hs) ∧
      (∀ e ∈ editsFrom before.length hs, before.length ≤ e.start) ∧
      Edit.splice orig before.length (editsFrom before.length hs) =
        (newLines (hs.flatMap DiffHunk.script)).map chomp ++ rest := by
  induction hs generalizing before with
  | nil => simp [editsFrom, Edit.applicable_nil, Edit.splice, oldLines, newLines]
  | cons h hs ih =>
    intro orig
    have hbefore := ih (before ++ h.skipped.map chomp ++ (oldLines h.body).map chomp)
    have horig : before ++ h.skipped.map chomp ++ (oldLines h.body).map chomp ++
        ((oldLines (hs.flatMap DiffHunk.script)).map chomp ++ rest) = orig := by
      simp [orig, DiffHunk.script]
    have hlen : (before ++ h.skipped.map chomp ++ (oldLines h.body).map chomp).length =
        before.length + h.skipped.length + h.oldCount := by
      simp [DiffHunk.oldCount, Nat.add_assoc]
    rw [horig, hlen] at hbefore
    obtain ⟨hfits, hafter, hsplice⟩ := hbefore
    have hdrop : orig.drop (before.length + h.skipped.length) = (oldLines h.body).map chomp ++
        ((oldLines (hs.flatMap DiffHunk.script)).map chomp ++ rest) := by
      have hskip : (before ++ h.skipped.map chomp).length = before.length + h.skipped.length := by
        simp
      rw [← hskip, ← horig]
      simp [List.drop_append]
    have hbetween : Edit.between orig before.length (before.length + h.skipped.length) =
        h.skipped.map chomp := by
      rw [Edit.between, Nat.add_sub_cancel_left, ← horig]
      simp
    have hstop : (before.length + h.skipped.length) + ((oldLines h.body).map chomp).length =
        before.length + h.skipped.length + h.oldCount := by
      simp [DiffHunk.oldCount]
    rw [editsFrom]
    refine ⟨Edit.applicable_cons.mpr ⟨?_, ?_, ?_, hfits⟩, ?_, ?_⟩
    · simp [orig, DiffHunk.script]
    · rw [hdrop]
      exact List.prefix_append _ _
    · intro f hf
      rw [Edit.stop, hstop]
      exact hafter f hf
    · refine List.forall_mem_cons.mpr ⟨Nat.le_add_right _ _, fun f hf => ?_⟩
      have := hafter f hf
      omega
    · rw [Edit.splice, Edit.stop, hstop, hsplice, hbetween]
      simp [DiffHunk.script]

theorem UnifiedDiff.edits_applicable {old new : Text} (d : UnifiedDiff old new) :
    Edit.Applicable (splitLines old) d.edits ∧
      Edit.splice (splitLines old) 0 d.edits = splitLines new := by
  have h := editsFrom_applicable d.hunks [] (d.rest.map chomp)
  have hold : splitLines old = (oldLines (d.hunks.flatMap DiffHunk.script)).map chomp ++
      d.rest.map chomp := by
    rw [splitLines_eq, d.old_lines]
    simp
  have hnew : splitLines new = (newLines (d.hunks.flatMap DiffHunk.script)).map chomp ++
      d.rest.map chomp := by
    rw [splitLines_eq, d.new_lines]
    simp
  rw [hold, hnew]
  exact ⟨h.1, h.2.2⟩

private theorem splitWhitespace_word {w s : Text} {c : Char} (hw : ∀ x ∈ w, isWhitespace x = false)
    (hne : w ≠ []) (hc : isWhitespace c = true) :
    splitWhitespace (w ++ c :: s) = w :: splitWhitespace s := by
  unfold splitWhitespace
  rw [List.splitOnP_append_cons_of_forall_mem hw c hc, List.filter_cons_of_pos (by simpa using hne)]

private theorem rangeText_chars {before count : Nat} {omitted : Bool} {c : Char}
    (h : c ∈ DiffHunk.rangeText before count omitted) : isAsciiDigit c = true ∨ c = ',' := by
  rw [DiffHunk.rangeText, List.mem_append] at h
  rcases h with h | h
  · exact .inl (isAsciiDigit_of_mem_ofNat h)
  · split at h
    · simp at h
    · rcases List.mem_cons.mp h with h | h
      · exact .inr h
      · exact .inl (isAsciiDigit_of_mem_ofNat h)

private theorem notMem_rangeText {before count : Nat} {omitted : Bool} {c : Char}
    (hc : isAsciiDigit c = false ∧ c ≠ ',') : c ∉ DiffHunk.rangeText before count omitted := by
  intro h
  rcases rangeText_chars h with h | h
  · rw [hc.1] at h
    cases h
  · exact hc.2 h

private theorem parseNumber_ofNat {detail : Text} {n : Nat} (hn : n < 2 ^ 64) :
    parseNumber detail (ofNat n) = .ok n := by
  rw [parseNumber, parseUsize, parseUnsigned_ofNat hn]

private theorem parseRange_rangeText {before count : Nat} (omitted : Bool)
    (hstart : DiffHunk.rangeStart before count < 2 ^ 64) (hcount : count < 2 ^ 64) :
    parseRange (DiffHunk.rangeText before count omitted) =
      .ok (DiffHunk.rangeStart before count, count) := by
  have hcomma : ∀ n : Nat, ',' ∉ ofNat n := fun n => notMem_ofNat (by decide)
  unfold DiffHunk.rangeText parseRange
  by_cases homit : (omitted && count = 1) = true
  · have hone : count = 1 := by simpa using (Bool.and_eq_true_iff.mp homit).2
    rw [if_pos homit, List.append_nil, List.splitOn_eq_singleton (hcomma _)]
    simp only [parseNumber_ofNat hstart]
    rw [hone]
    rfl
  · rw [if_neg homit, List.splitOn_append_cons_self_of_not_mem (hcomma _),
      List.splitOn_eq_singleton (hcomma _)]
    simp only [parseNumber_ofNat hstart, parseNumber_ofNat hcount]
    rfl

/-- The header that the applier reads. -/
def DiffHunk.header (h : DiffHunk) (oldBefore : Nat) : Hunk :=
  ⟨rangeStart oldBefore h.oldCount, h.oldCount, h.newCount⟩

private theorem parseHunkHeader_render (h : DiffHunk) {o n : Nat} (tail : Text)
    (hold : o + h.oldCount < 2 ^ 63) (hnew : n + h.newCount < 2 ^ 63) :
    parseHunkHeader (" -" ++ (DiffHunk.rangeText o h.oldCount h.omitOldCount ++ " +" ++
      (DiffHunk.rangeText n h.newCount h.omitNewCount ++ " @@" ++ tail))) =
      .ok (h.header o) := by
  have hstart : ∀ before count, before + count < 2 ^ 63 →
      DiffHunk.rangeStart before count < 2 ^ 64 := by
    intro before count hfits
    unfold DiffHunk.rangeStart
    split <;> omega
  have hword : ∀ before count omitted (sign : Char), isWhitespace sign = false →
      ∀ x ∈ sign :: DiffHunk.rangeText before count omitted, isWhitespace x = false := by
    intro before count omitted sign hsign x hx
    rcases List.mem_cons.mp hx with rfl | hx
    · exact hsign
    · rcases rangeText_chars hx with hdigit | rfl
      · exact not_isWhitespace_of_isAsciiDigit hdigit
      · decide
  have hparts : splitWhitespace (trimStart
      (" -" ++ (DiffHunk.rangeText o h.oldCount h.omitOldCount ++ " +" ++
        (DiffHunk.rangeText n h.newCount h.omitNewCount ++ " @@" ++ tail)))) =
      ('-' :: DiffHunk.rangeText o h.oldCount h.omitOldCount) ::
        ('+' :: DiffHunk.rangeText n h.newCount h.omitNewCount) ::
          splitWhitespace ("@@" ++ tail) := by
    have hone := splitWhitespace_word (s := '+' ::
        (DiffHunk.rangeText n h.newCount h.omitNewCount ++ " @@" ++ tail)) (c := ' ')
      (hword o h.oldCount h.omitOldCount '-' (by decide)) (by simp) (by decide)
    have htwo := splitWhitespace_word (s := "@@" ++ tail) (c := ' ')
      (hword n h.newCount h.omitNewCount '+' (by decide)) (by simp) (by decide)
    have htrim : trimStart (" -" ++ (DiffHunk.rangeText o h.oldCount h.omitOldCount ++
        " +" ++ (DiffHunk.rangeText n h.newCount h.omitNewCount ++ " @@" ++ tail))) =
        ('-' :: DiffHunk.rangeText o h.oldCount h.omitOldCount) ++ ' ' :: ('+' ::
          (DiffHunk.rangeText n h.newCount h.omitNewCount ++ " @@" ++ tail)) := by
      have hspace : isWhitespace ' ' = true := by decide
      have hminus : isWhitespace '-' = false := by decide
      simp [trimStart, hspace, hminus]
    have hnext : ('+' :: (DiffHunk.rangeText n h.newCount h.omitNewCount ++ " @@" ++
        tail) : Text) = ('+' :: DiffHunk.rangeText n h.newCount h.omitNewCount) ++
          ' ' :: ("@@" ++ tail) := by
      simp
    rw [htrim, hone, hnext, htwo]
  unfold parseHunkHeader
  dsimp only
  rw [hparts]
  have hsigned : ∀ (sign : Char) (detail r : Text),
      signedPart [sign] detail (some (sign :: r)) = .ok r := by
    intro sign detail r
    simp [signedPart, stripPrefix]
  have hone := hsigned '-' "missing old range"
    (DiffHunk.rangeText o h.oldCount h.omitOldCount)
  have htwo := hsigned '+' "missing new range"
    (DiffHunk.rangeText n h.newCount h.omitNewCount)
  refine bind_eq_ok.mpr ⟨_, hone, bind_eq_ok.mpr ⟨_, htwo, ?_⟩⟩
  rw [parseRange_rangeText _ (hstart _ _ hold) (by omega),
    parseRange_rangeText _ (hstart _ _ hnew) (by omega)]
  rfl

def LineOp.bodyOp : LineOp → BodyOp
  | context => .context
  | removed => .removed
  | added => .added

private theorem bodyOp_sign (op : LineOp) (content : Text) :
    PatchApply.bodyOp (op.sign :: content) = some op.bodyOp := by
  cases op <;> rfl

private theorem sign_ne_cr (op : LineOp) : op.sign ≠ '\r' := by
  cases op <;> decide

private theorem stripCr_marker : stripCr noNewlineMarker = noNewlineMarker := by
  decide

private theorem bodyOp_marker : PatchApply.bodyOp noNewlineMarker = some .marker := by
  decide

/-- A line as the applier reads it: without its terminator. -/
def readLine (line : Text) : Text := stripCr (chomp line)

private theorem render_map_stripCr (d : DiffLine) :
    d.render.map stripCr = if Terminated d.line then [d.op.sign :: readLine d.line]
      else [d.op.sign :: readLine d.line, noNewlineMarker] := by
  unfold DiffLine.render readLine
  split <;> simp [stripCr_cons (sign_ne_cr d.op), stripCr_marker]

/-- Whether the last line of a body has its newline. -/
def Closed (body : List DiffLine) : Prop := ∀ d, body.getLast? = some d → Terminated d.line

instance (body : List DiffLine) : Decidable (Closed body) :=
  decidable_of_iff (body.getLast?.all fun d => Terminated d.line) (by
    cases h : body.getLast? <;> simp [Closed, h])

private theorem closed_cons {d : DiffLine} {ds : List DiffLine} (hds : ds ≠ []) :
    Closed (d :: ds) ↔ Closed ds := by
  cases ds with
  | nil => exact absurd rfl hds
  | cons e ds => simp [Closed, List.getLast?_cons_cons]

private theorem closed_singleton {d : DiffLine} : Closed [d] ↔ Terminated d.line := by
  simp [Closed]

private theorem oldLines_length_cons (d : DiffLine) (ds : List DiffLine) :
    (oldLines (d :: ds)).length = d.op.bodyOp.old + (oldLines ds).length := by
  rw [oldLines_cons]
  cases d.op <;> simp [LineOp.inOld, LineOp.bodyOp, BodyOp.old, Nat.add_comm]

private theorem newLines_length_cons (d : DiffLine) (ds : List DiffLine) :
    (newLines (d :: ds)).length = d.op.bodyOp.new + (newLines ds).length := by
  rw [newLines_cons]
  cases d.op <;> simp [LineOp.inNew, LineOp.bodyOp, BodyOp.new, Nat.add_comm]

theorem LineOp.counts (op : LineOp) : 1 ≤ op.bodyOp.old + op.bodyOp.new := by
  cases op <;> decide

/-- The applier takes the lines of the body, except for a marker after the last of them. -/
private theorem takeBody_render (h : Hunk) (body : List DiffLine) (after : List Text) {o n : Nat}
    (hold : o + (oldLines body).length = h.oldCount)
    (hnew : n + (newLines body).length = h.newCount) :
    ∃ taken, takeBody h ((body.flatMap DiffLine.render).map stripCr ++ after) o n =
        some (taken, (if Closed body then [] else [noNewlineMarker]) ++ after) ∧
      (Closed body → taken = (body.flatMap DiffLine.render).map stripCr) := by
  induction body generalizing o n with
  | nil =>
    have hdone : ¬ (o < h.oldCount ∨ n < h.newCount) := by
      simp only [oldLines, newLines, List.filter_nil, List.map_nil, List.length_nil] at hold hnew
      omega
    refine ⟨[], (takeBody_done hdone).mpr ⟨rfl, ?_⟩, fun _ => rfl⟩
    simp [Closed]
  | cons d ds ih =>
    rw [oldLines_length_cons] at hold
    rw [newLines_length_cons] at hnew
    have hmore : o < h.oldCount ∨ n < h.newCount := by
      have := d.op.counts
      omega
    obtain ⟨taken, htake, hall⟩ := ih (o := o + d.op.bodyOp.old)
      (n := n + d.op.bodyOp.new) (by omega) (by omega)
    rw [List.flatMap_cons, List.map_append, render_map_stripCr]
    by_cases hterm : Terminated d.line
    · rw [if_pos hterm]
      refine ⟨_ :: taken, (takeBody_cons hmore).mpr
        ⟨_, _, bodyOp_sign _ _, rfl, htake.trans ?_⟩, ?_⟩
      · by_cases hds : ds = []
        · simp [hds, hterm, Closed]
        · simp [closed_cons hds]
      · intro hclosed
        have hclosed' : Closed ds := by
          by_cases hds : ds = []
          · simp [hds, Closed]
          · exact (closed_cons hds).mp hclosed
        rw [hall hclosed']
        rfl
    · rw [if_neg hterm]
      by_cases hds : ds = []
      · subst hds
        have hdone : ¬ (o + d.op.bodyOp.old < h.oldCount ∨
            n + d.op.bodyOp.new < h.newCount) := by
          simp only [oldLines, newLines, List.filter_nil, List.map_nil, List.length_nil] at hold hnew
          omega
        refine ⟨[_], (takeBody_cons hmore).mpr ⟨_, _, bodyOp_sign _ _, rfl,
          (takeBody_done hdone).mpr ⟨rfl, ?_⟩⟩, ?_⟩
        · simp [closed_singleton, hterm]
        · intro hclosed
          exact absurd (closed_singleton.mp hclosed) hterm
      · have hmore' : o + d.op.bodyOp.old < h.oldCount ∨
            n + d.op.bodyOp.new < h.newCount := by
          obtain ⟨e, es, rfl⟩ := List.exists_cons_of_ne_nil hds
          rw [oldLines_length_cons] at hold
          rw [newLines_length_cons] at hnew
          have := e.op.counts
          omega
        refine ⟨_ :: noNewlineMarker :: taken, (takeBody_cons hmore).mpr ⟨_, _, bodyOp_sign _ _, rfl,
          (takeBody_cons hmore').mpr ⟨_, _, bodyOp_marker, rfl, htake.trans ?_⟩⟩, ?_⟩
        · simp [closed_cons hds]
        · intro hclosed
          rw [hall ((closed_cons hds).mp hclosed)]
          rfl

theorem oldSide_render (body : List DiffLine) :
    oldSide ((body.flatMap DiffLine.render).map stripCr) = (oldLines body).map readLine := by
  induction body with
  | nil => rfl
  | cons d ds ih =>
    have hmarker : ∀ rest, oldSide (noNewlineMarker :: rest) = oldSide rest := fun rest => by
      rw [oldSide_cons bodyOp_marker]
      rfl
    have hline : ∀ rest, oldSide ((d.op.sign :: readLine d.line) :: rest) =
        if d.op.inOld then readLine d.line :: oldSide rest else oldSide rest := fun rest => by
      rw [oldSide_cons (bodyOp_sign _ _)]
      cases d.op <;> rfl
    rw [List.flatMap_cons, List.map_append, render_map_stripCr, oldLines_cons]
    split <;> simp only [List.cons_append, List.nil_append, hline, hmarker, ih] <;> split <;> rfl

theorem newSide_render (body : List DiffLine) :
    newSide ((body.flatMap DiffLine.render).map stripCr) = (newLines body).map readLine := by
  induction body with
  | nil => rfl
  | cons d ds ih =>
    have hmarker : ∀ rest, newSide (noNewlineMarker :: rest) = newSide rest := fun rest => by
      rw [newSide_cons bodyOp_marker]
      rfl
    have hline : ∀ rest, newSide ((d.op.sign :: readLine d.line) :: rest) =
        if d.op.inNew then readLine d.line :: newSide rest else newSide rest := fun rest => by
      rw [newSide_cons (bodyOp_sign _ _)]
      cases d.op <;> rfl
    rw [List.flatMap_cons, List.map_append, render_map_stripCr, newLines_cons]
    split <;> simp only [List.cons_append, List.nil_append, hline, hmarker, ih] <;> split <;> rfl

def readFrom : (oldBefore : Nat) → List DiffHunk → List ReadHunk
  | _, [] => []
  | oldBefore, h :: hs =>
    ⟨h.header (oldBefore + h.skipped.length), h.bodyLines.map stripCr⟩ ::
      readFrom (oldBefore + h.skipped.length + h.oldCount) hs

private theorem stripCr_headerLine (h : DiffHunk) (oldBefore newBefore : Nat) :
    ∃ tail, stripCr (h.headerLine oldBefore newBefore) = "@@" ++ (" -" ++
      (DiffHunk.rangeText oldBefore h.oldCount h.omitOldCount ++ " +" ++
        (DiffHunk.rangeText newBefore h.newCount h.omitNewCount ++ " @@" ++ tail))) := by
  have hrange : ∀ before count omitted, '\r' ∉ DiffHunk.rangeText before count omitted :=
    fun before count omitted => notMem_rangeText (by decide)
  refine ⟨stripCr h.heading, ?_⟩
  have hpre : '\r' ∉ "@@ -".toList ++ DiffHunk.rangeText oldBefore h.oldCount h.omitOldCount ++
      " +".toList ++ DiffHunk.rangeText newBefore h.newCount h.omitNewCount ++ " @@".toList := by
    simp [hrange]
  have := stripCr_append hpre h.heading
  simpa [DiffHunk.headerLine] using this

private theorem readHunks_marker {k : Nat} (hk : 0 < k) (lines : List Text) :
    readHunks k (noNewlineMarker :: lines) = none := by
  obtain ⟨j, rfl⟩ := Nat.exists_eq_succ_of_ne_zero hk.ne'
  have hpre : stripPrefix "@@" noNewlineMarker = none := by decide
  have hskip : (isFileHeader noNewlineMarker || noNewlineMarker.isEmpty) = false := by decide
  rw [readHunks, hpre]
  simp only [hskip]
  rfl

private theorem bodyLines_length_pos (h : DiffHunk) : 0 < h.bodyLines.length := by
  obtain ⟨d, ds, hbody⟩ := List.exists_cons_of_ne_nil h.body_nonempty
  have hd : 0 < d.render.length := by
    unfold DiffLine.render
    split <;> simp
  rw [DiffHunk.bodyLines, hbody, List.flatMap_cons, List.length_append]
  omega

/-- The rendered hunks are read as they are if every body ends with a newline; a marker after a
body is not understood. -/
private theorem readHunks_render (hs : List DiffHunk) {o n k : Nat}
    (hold : o + (oldLines (hs.flatMap DiffHunk.script)).length < 2 ^ 63)
    (hnew : n + (newLines (hs.flatMap DiffHunk.script)).length < 2 ^ 63)
    (hfuel : (renderHunks o n hs).length ≤ k) :
    readHunks k ((renderHunks o n hs).map stripCr) =
      if ∀ h ∈ hs, Closed h.body then some (readFrom o hs) else none := by
  induction hs generalizing o n k with
  | nil => cases k <;> simp [renderHunks, readHunks, readFrom]
  | cons h hs ih =>
    rw [renderHunks] at hfuel ⊢
    obtain ⟨k, rfl⟩ : ∃ j, k = j + 1 := Nat.exists_eq_succ_of_ne_zero (by
      intro h0
      simp [h0] at hfuel)
    simp only [List.length_cons, Nat.add_le_add_iff_right, List.length_append] at hfuel
    simp only [List.flatMap_cons, oldLines_append, newLines_append, List.length_append,
      DiffHunk.script, oldLines_unchanged, newLines_unchanged] at hold hnew
    obtain ⟨tail, hheader⟩ := stripCr_headerLine h (o + h.skipped.length)
      (n + h.skipped.length)
    have hparse := parseHunkHeader_render h (o := o + h.skipped.length)
      (n := n + h.skipped.length) tail (by unfold DiffHunk.oldCount; omega)
      (by unfold DiffHunk.newCount; omega)
    have hpre : ∀ s : Text, stripPrefix "@@" ("@@" ++ s) = some s := by
      intro s
      simp [stripPrefix]
    obtain ⟨taken, htake, hall⟩ := takeBody_render
      (h.header (o + h.skipped.length)) h.body
      ((renderHunks (o + h.skipped.length + h.oldCount)
        (n + h.skipped.length + h.newCount) hs).map stripCr)
      (o := 0) (n := 0) (by simp [DiffHunk.header, DiffHunk.oldCount])
      (by simp [DiffHunk.header, DiffHunk.newCount])
    rw [List.map_cons, hheader, readHunks, hpre]
    dsimp only
    rw [hparse]
    dsimp only
    rw [List.map_append, DiffHunk.bodyLines, htake]
    by_cases hclosed : Closed h.body
    · have hrest := ih (o := o + h.skipped.length + h.oldCount)
        (n := n + h.skipped.length + h.newCount) (k := k)
        (by unfold DiffHunk.oldCount; omega)
        (by unfold DiffHunk.newCount; omega) (by omega)
      rw [if_pos hclosed, List.nil_append, hall hclosed]
      simp only [Option.bind_eq_bind, Option.bind_some, hrest, List.forall_mem_cons, hclosed,
        true_and]
      split <;> rfl
    · have hpos := bodyLines_length_pos h
      have hnone := readHunks_marker (k := k) (by omega)
        ((renderHunks (o + h.skipped.length + h.oldCount)
          (n + h.skipped.length + h.newCount) hs).map stripCr)
      rw [if_neg hclosed, List.singleton_append]
      simp [hnone, hclosed]

/-- File headers are passed over. -/
private theorem readHunks_preamble {preamble : List Text}
    (hpre : ∀ l ∈ preamble, isFileHeader l = true) (fuel : Nat) (lines : List Text) :
    readHunks (preamble.length + fuel) (preamble.map stripCr ++ lines) = readHunks fuel lines := by
  induction preamble with
  | nil => simp
  | cons l ls ih =>
    have hheader : isFileHeader (stripCr l) = true ∧ stripPrefix "@@" (stripCr l) = none := by
      have hl := hpre l (by simp)
      have hstart : ∀ pre : Text, '\r' ∉ pre → l.startsWith pre = true →
          ∃ t, stripCr l = pre ++ t ∧ (stripCr l).startsWith pre = true := by
        intro pre hcr hpre
        obtain ⟨t, rfl⟩ := List.isPrefixOf_iff_prefix.mp hpre
        refine ⟨stripCr t, stripCr_append hcr t, ?_⟩
        rw [stripCr_append hcr t]
        exact List.isPrefixOf_iff_prefix.mpr (List.prefix_append _ _)
      unfold isFileHeader at hl ⊢
      rcases Bool.or_eq_true_iff.mp hl with hl | hl
      · rcases Bool.or_eq_true_iff.mp hl with hl | hl
        · rcases Bool.or_eq_true_iff.mp hl with hl | hl
          · obtain ⟨t, ht, hstart⟩ := hstart "--- " (by decide) hl
            exact ⟨by simp only [hstart, Bool.true_or], by rw [ht]; rfl⟩
          · obtain ⟨t, ht, hstart⟩ := hstart "+++ " (by decide) hl
            exact ⟨by simp only [hstart, Bool.true_or, Bool.or_true], by rw [ht]; rfl⟩
        · obtain ⟨t, ht, hstart⟩ := hstart "diff " (by decide) hl
          exact ⟨by simp only [hstart, Bool.true_or, Bool.or_true], by rw [ht]; rfl⟩
      · obtain ⟨t, ht, hstart⟩ := hstart "index " (by decide) hl
        exact ⟨by simp only [hstart, Bool.or_true], by rw [ht]; rfl⟩
    have hlen : (l :: ls).length + fuel = ls.length + fuel + 1 := by
      simp only [List.length_cons]
      omega
    rw [hlen, List.map_cons, List.cons_append, readHunks, hheader.2]
    simp only [hheader.1, Bool.true_or, if_true]
    exact ih fun l hl => hpre l (by simp [hl])

private theorem newline_notMem_renderHunks {hs : List DiffHunk} {oldBefore newBefore : Nat}
    (hbody : ∀ h ∈ hs, ∀ d ∈ h.body, '\n' ∉ chomp d.line) :
    ∀ l ∈ renderHunks oldBefore newBefore hs, '\n' ∉ l := by
  induction hs generalizing oldBefore newBefore with
  | nil => simp [renderHunks]
  | cons h hs ih =>
    have hrange : ∀ before count omitted, '\n' ∉ DiffHunk.rangeText before count omitted :=
      fun before count omitted => notMem_rangeText (by decide)
    intro l hl
    rw [renderHunks] at hl
    rcases List.mem_cons.mp hl with rfl | hl
    · simp [DiffHunk.headerLine, hrange, h.heading_line]
    · rcases List.mem_append.mp hl with hl | hl
      · obtain ⟨d, hd, hl⟩ := List.mem_flatMap.mp hl
        have hsign : '\n' ≠ d.op.sign := by
          cases d.op <;> decide
        have hline : '\n' ∉ d.op.sign :: chomp d.line := by
          simpa [hsign] using hbody h (by simp) d hd
        have hmarker : '\n' ∉ noNewlineMarker := by decide
        unfold DiffLine.render at hl
        split at hl
        · rwa [List.mem_singleton.mp hl]
        · rcases List.mem_pair.mp hl with rfl | rfl
          · exact hline
          · exact hmarker
      · exact ih (fun k hk => hbody k (by simp [hk])) l hl

namespace UnifiedDiff

variable {old new : Text}

theorem line_mem (d : UnifiedDiff old new) {x : DiffLine} (hx : x ∈ d.script) :
    x.line ∈ rawLines old ∨ x.line ∈ rawLines new := by
  by_cases hop : x.op.inOld
  · refine .inl ?_
    rw [d.old_lines]
    exact List.mem_map_of_mem (List.mem_filter.mpr ⟨hx, hop⟩)
  · refine .inr ?_
    rw [d.new_lines]
    refine List.mem_map_of_mem (List.mem_filter.mpr ⟨hx, ?_⟩)
    cases h : x.op <;> simp_all [LineOp.inOld, LineOp.inNew]

theorem body_mem_script (d : UnifiedDiff old new) {h : DiffHunk} (hh : h ∈ d.hunks) {x : DiffLine}
    (hx : x ∈ h.body) : x ∈ d.script :=
  List.mem_append_left _ (List.mem_flatMap.mpr ⟨h, hh, List.mem_append_right _ hx⟩)

theorem readDiff_render (d : UnifiedDiff old new) :
    readDiff d.render =
      if ∀ h ∈ d.hunks, Closed h.body then some (readFrom 0 d.hunks) else none := by
  have hfree : ∀ l ∈ d.preamble ++ renderHunks 0 0 d.hunks, '\n' ∉ l := by
    intro l hl
    rcases List.mem_append.mp hl with hl | hl
    · exact (d.preamble_header l hl).2
    · refine newline_notMem_renderHunks (fun h hh x hx => ?_) l hl
      rcases d.line_mem (d.body_mem_script hh hx) with hmem | hmem
      · exact newline_notMem_chomp hmem
      · exact newline_notMem_chomp hmem
  have hold := d.old_fits
  have hnew := d.new_fits
  rw [d.old_lines, oldLines_append, List.length_append] at hold
  rw [d.new_lines, newLines_append, List.length_append] at hnew
  rw [readDiff, render, lines_unlines hfree, List.map_append, List.length_append, List.length_map,
    readHunks_preamble (fun l hl => (d.preamble_header l hl).1)]
  exact readHunks_render d.hunks (by omega) (by omega) (by simp)

end UnifiedDiff

end Jitgen
