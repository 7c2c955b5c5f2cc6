import Jitgen.Framework.Lines

/-!
# Documents made of rows

A row is made of fixed pieces, which the template gives, and of values that are shown between them.
When no piece breaks a line, the lines of the document are its rows, whatever the values are.
-/

namespace Jitgen.Rows

open Text

/-- A line feed, a carriage return, a vertical tab, a form feed, a next-line control, or one of the
two Unicode separators. -/
def isLineBreak (c : Char) : Bool :=
  let n := c.toNat
  (0xA ≤ n && n ≤ 0xD) || n == 0x85 || n == 0x2028 || n == 0x2029

/-- How many lines a reader sees for whom `brk` ends a line. -/
def lineCount (brk : Char → Bool) (s : Text) : Nat := (s.splitOnP brk).length

inductive Piece (α : Type) where
  | fixed (t : Text)
  | shown (value : α)

variable {α : Type}

/-- What is left of a row without its values. -/
def skeleton (row : List (Piece α)) : List (Option Text) :=
  row.map fun
    | .fixed t => some t
    | .shown _ => none

/-- The template text in front of the first value. -/
def staticPrefix : List (Option Text) → Text
  | some t :: pieces => t ++ staticPrefix pieces
  | _ => []

/-- The values of a row. -/
def values (row : List (Piece α)) : List α :=
  row.filterMap fun
    | .fixed _ => none
    | .shown value => some value

variable (view : α → Text)

def Piece.text : Piece α → Text
  | .fixed t => t
  | .shown value => view value

def rowText (row : List (Piece α)) : Text := row.flatMap (Piece.text view)

/-- The rows, each ended by a newline. -/
def document (rows : List (List (Piece α))) : Text := unlines (rows.map (rowText view))

theorem length_splitOnP {brk : Char → Bool} (s : Text) :
    (s.splitOnP brk).length = s.countP brk + 1 := by
  induction s with
  | nil => rfl
  | cons c s ih =>
    rw [List.splitOnP_cons_eq_if_modifyHead]
    cases hc : brk c with
    | true => simp [hc, ih]
    | false => simp [hc, ih]

theorem staticPrefix_isPrefix (row : List (Piece α)) :
    staticPrefix (skeleton row) <+: rowText view row := by
  induction row with
  | nil => exact List.nil_prefix
  | cons p row ih =>
    cases p with
    | fixed t => exact (List.prefix_append_right_inj t).mpr ih
    | shown value => exact List.nil_prefix

theorem document_append (rows rows' : List (List (Piece α))) :
    document view (rows ++ rows') = document view rows ++ document view rows' := by
  rw [document, List.map_append, unlines_append]
  rfl

theorem document_map {β : Type} (row : β → List (Piece α)) (l : List β) :
    document view (l.map row) = l.flatMap fun x => rowText view (row x) ++ ['\n'] := by
  rw [document, unlines, List.map_map, List.flatMap_map]
  rfl

theorem of_mem_document {rows : List (List (Piece α))} {c : Char} (h : c ∈ document view rows) :
    c = '\n' ∨ ∃ row ∈ rows, ∃ p ∈ row, c ∈ p.text view := by
  have ⟨l, hl, hc⟩ := List.mem_flatMap.mp h
  have ⟨row, hrow, htext⟩ := List.mem_map.mp hl
  rcases List.mem_append.mp hc with hc | hc
  · rw [← htext] at hc
    have ⟨p, hp, hmem⟩ := List.mem_flatMap.mp hc
    exact .inr ⟨row, hrow, p, hp, hmem⟩
  · exact .inl (List.mem_singleton.mp hc)

theorem mem_document_of_mem {rows : List (List (Piece α))} {row : List (Piece α)} {p : Piece α}
    {c : Char} (hrow : row ∈ rows) (hp : p ∈ row) (hc : c ∈ p.text view) :
    c ∈ document view rows := by
  have hline : c ∈ rowText view row := List.mem_flatMap.mpr ⟨p, hp, hc⟩
  have hmem : rowText view row ∈ rows.map (rowText view) := List.mem_map_of_mem hrow
  exact List.mem_flatMap.mpr ⟨_, hmem, List.mem_append_left _ hline⟩

/-- No piece holds a line break. -/
def Unbroken (rows : List (List (Piece α))) : Prop :=
  ∀ row ∈ rows, ∀ p ∈ row, ∀ c ∈ p.text view, isLineBreak c = false

variable {view} {rows : List (List (Piece α))}

theorem rowText_unbroken (h : Unbroken view rows) {row : List (Piece α)} (hrow : row ∈ rows) :
    ∀ c ∈ rowText view row, isLineBreak c = false := by
  intro c hc
  have ⟨p, hp, hmem⟩ := List.mem_flatMap.mp hc
  exact h row hrow p hp c hmem

theorem splitOn_document (h : Unbroken view rows) :
    (document view rows).splitOn '\n' = rows.map (rowText view) ++ [[]] := by
  have hline : ∀ l ∈ rows.map (rowText view), '\n' ∉ l := by
    intro l hl hmem
    have ⟨row, hrow, htext⟩ := List.mem_map.mp hl
    rw [← htext] at hmem
    exact absurd (rowText_unbroken h hrow _ hmem) (by decide)
  rw [document]
  generalize rows.map (rowText view) = ls at hline
  induction ls with
  | nil => rfl
  | cons l ls ih =>
    have hl := hline l List.mem_cons_self
    have hrest := ih fun k hk => hline k (List.mem_cons_of_mem l hk)
    rw [unlines_cons, List.append_assoc, List.singleton_append,
      List.splitOn_append_cons_self_of_not_mem hl, hrest]
    rfl

/-- Under every convention there is one line for each row that ends in a line break. -/
theorem lineCount_document (h : Unbroken view rows) {brk : Char → Bool}
    (hbrk : ∀ c, brk c = true → isLineBreak c = true) :
    lineCount brk (document view rows) = (if brk '\n' then rows.length else 0) + 1 := by
  have hrow : ∀ row ∈ rows, (rowText view row).countP brk = 0 := by
    intro row hrow
    apply List.countP_eq_zero.mpr
    intro c hc hb
    have := rowText_unbroken h hrow c hc
    rw [hbrk c hb] at this
    cases this
  rw [lineCount, length_splitOnP, document]
  clear h
  congr 1
  induction rows with
  | nil => simp
  | cons row rows ih =>
    have hhead := hrow row List.mem_cons_self
    have hrest := ih fun r hr => hrow r (List.mem_cons_of_mem row hr)
    rw [List.map_cons, unlines_cons, List.countP_append, List.countP_append, hhead, hrest]
    split_ifs with hb
    · simp [hb, Nat.add_comm]
    · simp [hb]

end Jitgen.Rows
