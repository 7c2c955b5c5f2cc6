import Jitgen.Framework.Lines

/-!
# Fenced code blocks of CommonMark

A document is read line by line. An opening fence starts a code block, which runs to a closing
fence of the same character that is at least as long, or else to the end of the document.
-/

namespace Jitgen.CommonMark

open Text

/-- Lines ended by a line feed, a carriage return, or both in this order; `cr` tells that the last
character was a carriage return. -/
def linesFrom (cr : Bool) (acc : Text) : Text → List Text
  | [] => if acc = [] then [] else [acc]
  | c :: cs =>
    if c = '\n' then
      if cr then linesFrom false [] cs else acc :: linesFrom false [] cs
    else if c = '\r' then acc :: linesFrom true [] cs
    else linesFrom false (acc ++ [c]) cs

def lines (s : Text) : List Text := linesFrom false [] s

/-- A line without its leading spaces. -/
def unindented (l : Text) : Text := l.dropWhile (· = ' ')

def indent (l : Text) : Nat := (l.takeWhile (· = ' ')).length

def isBlankChar (c : Char) : Bool := c = ' ' || c = '\t'

/-- How often a character stands at the front of a text. -/
def runLength (c : Char) (l : Text) : Nat := (l.takeWhile (· = c)).length

structure Fence where
  marker : Char
  length : Nat
  indent : Nat
  info : Text
  deriving DecidableEq

/-- The fence a line opens. An info string behind backticks has no backtick. -/
def opening (l : Text) : Option Fence :=
  (unindented l).head?.bind fun c =>
    let length := runLength c (unindented l)
    let info := (((unindented l).drop length).dropWhile isBlankChar).rdropWhile isBlankChar
    if indent l ≤ 3 ∧ 3 ≤ length ∧ (c = '~' ∨ c = Char.ofNat 0x60 ∧ c ∉ info) then
      some ⟨c, length, indent l, info⟩
    else none

/-- Whether a line closes the block of a fence. -/
def Closes (f : Fence) (l : Text) : Prop :=
  indent l ≤ 3 ∧ f.length ≤ runLength f.marker (unindented l) ∧
    ((unindented l).drop (runLength f.marker (unindented l))).all isBlankChar = true

instance (f : Fence) (l : Text) : Decidable (Closes f l) := inferInstanceAs (Decidable (_ ∧ _))

/-- A content line loses the indentation of its fence. -/
def contentLine (f : Fence) (l : Text) : Text := l.drop (min f.indent (indent l))

inductive Block where
  | fenced (fence : Fence) (content : List Text) (closed : Bool)
  | line (l : Text)
  deriving DecidableEq

/-- The blocks of the lines that follow, inside an open block when there is one. -/
def blocksFrom : Option (Fence × List Text) → List Text → List Block
  | none, [] => []
  | some (f, content), [] => [.fenced f content false]
  | none, l :: ls =>
    match opening l with
    | none => .line l :: blocksFrom none ls
    | some f => blocksFrom (some (f, [])) ls
  | some (f, content), l :: ls =>
    if Closes f l then .fenced f content true :: blocksFrom none ls
    else blocksFrom (some (f, content ++ [contentLine f l])) ls

def blocks (s : Text) : List Block := blocksFrom none (lines s)

example : blocks "a\n ~~~ rs\n  b\r\n~~\n~~~~ \n`````" =
    [.line "a", .fenced ⟨'~', 3, 1, "rs"⟩ [(" b" : Text), "~~"] true,
      .fenced ⟨Char.ofNat 0x60, 5, 0, []⟩ [] false] := by decide +kernel

/-- What was read of a line goes in front of the lines that follow. -/
theorem linesFrom_eq {s : Text} (hs : '\r' ∉ s) (acc : Text) :
    linesFrom false acc s =
      match (rawLines s).map chomp with
      | [] => if acc = [] then [] else [acc]
      | l :: ls => (acc ++ l) :: ls := by
  induction s generalizing acc with
  | nil => rfl
  | cons c cs ih =>
    have hc : c ≠ '\r' := fun h => hs (h ▸ List.mem_cons_self)
    have hrest := ih fun h => hs (List.mem_cons_of_mem c h)
    by_cases hline : c = '\n'
    · have hnil : linesFrom false [] cs = (rawLines cs).map chomp := by
        rw [hrest]
        cases (rawLines cs).map chomp <;> rfl
      rw [linesFrom, if_pos hline, rawLines, if_pos hline, hnil]
      simp [chomp_newline]
    · rw [linesFrom, if_neg hline, if_neg hc, hrest, rawLines, if_neg hline]
      cases hraw : rawLines cs with
      | nil =>
        have hchomp : chomp [c] = [c] :=
          chomp_of_not_terminated (by simpa [Terminated] using hline)
        simp [hchomp]
      | cons l ls =>
        have hl : l ≠ [] := rawLines_ne_nil (hraw ▸ List.mem_cons_self)
        simp [chomp_cons hl]

theorem lines_eq {s : Text} (hs : '\r' ∉ s) : lines s = (rawLines s).map chomp := by
  rw [lines, linesFrom_eq hs]
  cases (rawLines s).map chomp <;> rfl

theorem lines_unlines {ls : List Text} (hls : ∀ l ∈ ls, '\n' ∉ l) (hcr : '\r' ∉ unlines ls) :
    lines (unlines ls) = ls := by
  rw [lines_eq hcr, rawLines_unlines hls, List.map_map]
  have hchomp : chomp ∘ (· ++ ['\n']) = id := funext chomp_append_newline
  rw [hchomp, List.map_id]

theorem lines_unlines_unended {ls : List Text} (h : ∀ l ∈ ls, '\n' ∉ l ∧ '\r' ∉ l) :
    lines (unlines ls) = ls := by
  apply lines_unlines
  · exact fun l hl => (h l hl).1
  · intro hmem
    obtain ⟨l, hl, hcr⟩ := List.mem_flatMap.mp hmem
    exact (h l hl).2 (by simpa using hcr)

theorem unlines_lines {s : Text} (hs : '\r' ∉ s) :
    unlines (lines s) = if Terminated s ∨ s = [] then s else s ++ ['\n'] := by
  rw [lines_eq hs]
  by_cases hnil : s = []
  · simp [hnil, rawLines]
  have hraw : (rawLines s).map chomp ≠ [] := by
    intro h
    exact hnil (rawLines_eq_nil (List.map_eq_nil_iff.mp h))
  have hjoin := text_eq_join hnil
  rw [unlines_eq_join hraw]
  by_cases hterm : Terminated s
  · rw [if_pos hterm] at hjoin
    rw [if_pos (.inl hterm)]
    exact hjoin.symm
  · rw [if_neg hterm, List.append_nil] at hjoin
    rw [if_neg (by simp [hterm, hnil]), ← hjoin]

theorem mem_of_mem_lines {s l : Text} (hs : '\r' ∉ s) (hl : l ∈ lines s) :
    '\n' ∉ l ∧ l <:+: s := by
  rw [lines_eq hs] at hl
  have ⟨raw, hraw, hchomp⟩ := List.mem_map.mp hl
  have hinfix : raw <:+: (rawLines s).flatten := List.infix_of_mem_flatten hraw
  rw [rawLines_flatten] at hinfix
  have hpre : chomp raw <+: raw := by
    unfold chomp
    split
    · exact List.dropLast_prefix raw
    · exact List.prefix_refl raw
  rw [← hchomp]
  exact ⟨newline_notMem_chomp hraw, hpre.isInfix.trans hinfix⟩

theorem blocksFrom_content {f : Fence} {ls : List Text} (hls : ∀ l ∈ ls, ¬ Closes f l)
    (content : List Text) (close : Text) (hclose : Closes f close) (rest : List Text) :
    blocksFrom (some (f, content)) (ls ++ close :: rest) =
      .fenced f (content ++ ls.map (contentLine f)) true :: blocksFrom none rest := by
  induction ls generalizing content with
  | nil => simp [blocksFrom, hclose]
  | cons l ls ih =>
    have hl := hls l List.mem_cons_self
    have hrest := ih fun k hk => hls k (List.mem_cons_of_mem l hk)
    rw [List.cons_append, blocksFrom, if_neg hl, hrest, List.append_assoc]
    rfl

theorem contentLine_of_indent_zero {f : Fence} (hf : f.indent = 0) (l : Text) :
    contentLine f l = l := by
  simp [contentLine, hf]

theorem replicate_infix_of_closes {f : Fence} {l : Text} (h : Closes f l) :
    List.replicate f.length f.marker <:+: l := by
  have hrun : (unindented l).takeWhile (· = f.marker) =
      List.replicate (runLength f.marker (unindented l)) f.marker := by
    apply List.eq_replicate_iff.mpr
    refine ⟨rfl, fun c hc => ?_⟩
    simpa using List.mem_takeWhile_imp hc
  have hpre : List.replicate f.length f.marker <+: unindented l := by
    have hle : f.length ≤ runLength f.marker (unindented l) := h.2.1
    have hrep : List.replicate f.length f.marker <+:
        List.replicate (runLength f.marker (unindented l)) f.marker := by
      rw [← Nat.add_sub_cancel' hle, List.replicate_add]
      exact List.prefix_append _ _
    rw [← hrun] at hrep
    exact hrep.trans (List.takeWhile_prefix _)
  exact hpre.isInfix.trans (List.dropWhile_suffix _).isInfix

end Jitgen.CommonMark
