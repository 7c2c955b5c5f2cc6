import Jitgen.Framework.InlineTokens

/-!
# A fragment of CommonMark with tables

Headings, paragraphs of one line, bullet items of one line, tables and fenced code, all of them
without indentation. A document that leaves the fragment is not read at all.
-/

namespace Jitgen.CommonMark

open Text

inductive Item where
  | empty
  | indented (l : Text)
  | paragraph (content : List Token)
  deriving DecidableEq

inductive Element where
  | heading (level : Nat) (content : List Token)
  | paragraph (content : List Token)
  | item (content : Item)
  | tableHead (cells : List (List Token))
  | tableRow (cells : List (List Token))
  | fenced (info : Text) (content : List Text)
  deriving DecidableEq

inductive Line where
  | blank
  | heading (level : Nat) (content : Text)
  | item (content : Text)
  | row (cells : List Text)
  | text (content : Text)
  | fenced (info : Text) (content : List Text)
  deriving DecidableEq

def trimBlanks (l : Text) : Text := (l.dropWhile isBlankChar).rdropWhile isBlankChar

/-- Three or more stars, dashes or underscores and blanks. -/
def isThematicBreak (l : Text) : Bool :=
  match l with
  | [] => false
  | c :: _ =>
    (c = '*' || c = '-' || c = '_') && l.all (fun d => d = c || isBlankChar d) && 3 ≤ l.count c

/-- Characters at the front of a line that may start another block than a paragraph. -/
def blockChars : Text := ['#', '-', '+', '*', '>', '<', grave, '~', '[', '|']

/-- Whether a line begins like another block than a paragraph. -/
def startsBlock (l : Text) : Bool :=
  isThematicBreak l || l.head?.any (· ∈ blockChars) ||
    l.head?.any isAsciiDigit && (l.dropWhile isAsciiDigit).head?.any (· ∈ ['.', ')'])

/-- Text of a heading: a closing string of number signs goes when a blank or nothing is in front
of it. -/
def headingText (l : Text) : Text :=
  let bare := (trimBlanks l).rdropWhile (· = '#')
  if bare.getLast?.all isBlankChar then trimBlanks bare else trimBlanks l

/-- Cells behind the first pipe of a row. A pipe behind a backslash stands in the cell, without the
backslash. -/
def cellsFrom (acc : Text) : Text → List Text
  | [] => if acc.all isBlankChar then [] else [trimBlanks acc]
  | c :: cs =>
    if c = '|' then
      if acc.getLast? = some '\\' then cellsFrom (acc.dropLast ++ [c]) cs
      else trimBlanks acc :: cellsFrom [] cs
    else cellsFrom (acc ++ [c]) cs

def headingLine (l : Text) : Option Line :=
  let level := runLength '#' l
  let rest := l.drop level
  if level ≤ 6 ∧ rest.head?.all isBlankChar then some (.heading level (headingText rest)) else none

def readLine (l : Text) : Option Line :=
  if l.all isBlankChar then some .blank
  else if isThematicBreak l then none
  else
    match l with
    | [] => none
    | c :: cs =>
      if c = '#' then headingLine l
      else if c = '-' ∧ cs.head?.all isBlankChar then some (.item cs)
      else if c = '|' then some (.row (cellsFrom [] cs))
      else if isBlankChar c || startsBlock l then none
      else some (.text (trimBlanks l))

def readBlock : Block → Option Line
  | .line l => readLine l
  | .fenced f content _ => if f.indent = 0 then some (.fenced f.info content) else none

example : readLine "| a \\| b | c" = some (.row [("a | b" : Text), "c"]) := by decide +kernel

/-- The column behind blanks that start in a column; tab stops are four columns apart. -/
def columnBehind (column : Nat) : Text → Nat
  | [] => column
  | c :: cs =>
    if c = ' ' then columnBehind (column + 1) cs
    else if c = '\t' then columnBehind (column + (4 - column % 4)) cs
    else column

/-- A character by character rewriting that keeps the blanks of a text and adds none. -/
def KeepsBlanks (f : Char → Text) (v : Text) : Prop :=
  ∀ c ∈ v, if isBlankChar c then f c = [c] else f c ≠ [] ∧ ∀ d ∈ f c, isBlankChar d = false

section

variable {f : Char → Text} {v : Text}

theorem dropWhile_flatMap (h : KeepsBlanks f v) :
    (v.flatMap f).dropWhile isBlankChar = (v.dropWhile isBlankChar).flatMap f := by
  induction v with
  | nil => rfl
  | cons c v ih =>
    have hc := h c List.mem_cons_self
    have hrest := ih fun d hd => h d (List.mem_cons_of_mem c hd)
    cases hblank : isBlankChar c with
    | true =>
      rw [hblank, if_pos rfl] at hc
      simpa [hc, hblank] using hrest
    | false =>
      rw [hblank, if_neg Bool.false_ne_true] at hc
      obtain ⟨d, ds, hds⟩ := List.exists_cons_of_ne_nil hc.1
      have hd : isBlankChar d = false := hc.2 d (by simp [hds])
      simp [hds, hblank, hd]

theorem KeepsBlanks.dropWhile (h : KeepsBlanks f v) :
    KeepsBlanks f (v.dropWhile isBlankChar) :=
  fun c hc => h c ((List.dropWhile_suffix _).mem hc)

theorem rdropWhile_flatMap (h : KeepsBlanks f v) :
    (v.flatMap f).rdropWhile isBlankChar = (v.rdropWhile isBlankChar).flatMap f := by
  have hreverse : KeepsBlanks (fun c => (f c).reverse) v.reverse := by
    intro c hc
    have hfc := h c (List.mem_reverse.mp hc)
    split_ifs with hblank
    · rw [if_pos hblank] at hfc
      show (f c).reverse = [c]
      rw [hfc]
      rfl
    · rw [if_neg hblank] at hfc
      exact ⟨by simpa using hfc.1, fun d hd => hfc.2 d (List.mem_reverse.mp hd)⟩
  rw [List.rdropWhile, List.rdropWhile, List.reverse_flatMap]
  have hdrop := dropWhile_flatMap hreverse
  rw [show (List.reverse ∘ f) = fun c => (f c).reverse from rfl, hdrop, List.reverse_flatMap]
  simp [Function.comp_def]

theorem trimBlanks_flatMap (h : KeepsBlanks f v) :
    trimBlanks (v.flatMap f) = (trimBlanks v).flatMap f := by
  rw [trimBlanks, dropWhile_flatMap h, rdropWhile_flatMap h.dropWhile]
  rfl

theorem columnBehind_flatMap (h : KeepsBlanks f v) (column : Nat) :
    columnBehind column (v.flatMap f) = columnBehind column v := by
  induction v generalizing column with
  | nil => rfl
  | cons c v ih =>
    have hc := h c List.mem_cons_self
    have hrest := ih fun d hd => h d (List.mem_cons_of_mem c hd)
    cases hblank : isBlankChar c with
    | true =>
      rw [hblank, if_pos rfl] at hc
      rw [List.flatMap_cons, hc, List.singleton_append, columnBehind, columnBehind, hrest, hrest]
    | false =>
      rw [hblank, if_neg Bool.false_ne_true] at hc
      obtain ⟨d, ds, hds⟩ := List.exists_cons_of_ne_nil hc.1
      have hd : isBlankChar d = false := hc.2 d (by simp [hds])
      simp only [isBlankChar, Bool.or_eq_false_iff, decide_eq_false_iff_not] at hd hblank
      rw [List.flatMap_cons, hds, List.cons_append, columnBehind, columnBehind, if_neg hd.1,
        if_neg hd.2, if_neg hblank.1, if_neg hblank.2]

/-- A text whose first and last character are no blanks. -/
def Solid (l : Text) : Prop := l.head?.any (!isBlankChar ·) ∧ l.getLast?.any (!isBlankChar ·)

instance (l : Text) : Decidable (Solid l) := inferInstanceAs (Decidable (_ ∧ _))

theorem rdropWhile_of_last {p : Char → Bool} {l : Text}
    (h : ∀ c, l.getLast? = some c → p c = false) : l.rdropWhile p = l := by
  apply List.rdropWhile_eq_self_iff.mpr
  intro hne hlast
  have hp := h _ (List.getLast?_eq_some_getLast hne)
  rw [hlast] at hp
  cases hp

theorem trimBlanks_solid {l : Text} (h : Solid l) : trimBlanks l = l := by
  have hhead : l.dropWhile isBlankChar = l := by
    cases l with
    | nil => rfl
    | cons c l => exact List.dropWhile_cons_of_neg (by simpa using h.1)
  rw [trimBlanks, hhead]
  apply rdropWhile_of_last
  intro c hc
  simpa [hc] using h.2

theorem trimBlanks_cons_blank {c : Char} (hc : isBlankChar c = true) (l : Text) :
    trimBlanks (c :: l) = trimBlanks l := by
  rw [trimBlanks, List.dropWhile_cons_of_pos hc]
  rfl

theorem trimBlanks_concat_blank {c : Char} (hc : isBlankChar c = true) (l : Text) :
    trimBlanks (l ++ [c]) = trimBlanks l := by
  induction l with
  | nil => exact trimBlanks_cons_blank hc []
  | cons d l ih =>
    by_cases hd : isBlankChar d = true
    · rw [List.cons_append, trimBlanks_cons_blank hd, trimBlanks_cons_blank hd, ih]
    · rw [trimBlanks, trimBlanks, List.dropWhile_cons_of_neg hd, List.cons_append,
        List.dropWhile_cons_of_neg hd, ← List.cons_append, List.rdropWhile_concat_pos _ _ _ hc]

end

theorem cellsFrom_plain {s : Text} (hs : '|' ∉ s) (acc t : Text) :
    cellsFrom acc (s ++ t) = cellsFrom (acc ++ s) t := by
  induction s generalizing acc with
  | nil => rw [List.append_nil, List.nil_append]
  | cons c s ih =>
    rw [List.mem_cons, not_or] at hs
    rw [List.cons_append, cellsFrom, if_neg (Ne.symm hs.1), ih hs.2, List.append_assoc]
    rfl

theorem cellsFrom_escaped (acc t : Text) :
    cellsFrom acc ('\\' :: '|' :: t) = cellsFrom (acc ++ ['|']) t := by
  rw [cellsFrom, if_neg (by decide), cellsFrom, if_pos rfl, if_pos (by simp)]
  simp

theorem cellsFrom_pipe {acc : Text} (hacc : acc.getLast? ≠ some '\\') (t : Text) :
    cellsFrom acc ('|' :: t) = trimBlanks acc :: cellsFrom [] t := by
  rw [cellsFrom, if_pos rfl, if_neg hacc]

theorem readLine_row (cs : Text) : readLine ('|' :: cs) = some (.row (cellsFrom [] cs)) := rfl

theorem headingText_solid {content : Text} (h : Solid content)
    (hlast : content.getLast? ≠ some '#') : headingText (' ' :: content) = content := by
  have hbare : content.rdropWhile (· = '#') = content := by
    apply rdropWhile_of_last
    intro c hc
    apply decide_eq_false
    rintro rfl
    exact hlast hc
  rw [headingText, trimBlanks_cons_blank rfl, trimBlanks_solid h]
  simp only [hbare, trimBlanks_solid h, ite_self]

theorem readLine_heading {n : Nat} (hpos : 1 ≤ n) (hn : n ≤ 6) {content : Text}
    (h : Solid content) (hlast : content.getLast? ≠ some '#') :
    readLine (List.replicate n '#' ++ ' ' :: content) = some (.heading n content) := by
  obtain ⟨m, rfl⟩ : ∃ m, n = m + 1 := ⟨n - 1, by omega⟩
  have hlevel : runLength '#' (List.replicate (m + 1) '#' ++ ' ' :: content) = m + 1 :=
    runLength_replicate (by simp) (m + 1)
  have hrest : (List.replicate (m + 1) '#' ++ ' ' :: content).drop (m + 1) = ' ' :: content := by
    simp
  have hread : readLine (List.replicate (m + 1) '#' ++ ' ' :: content) =
      headingLine (List.replicate (m + 1) '#' ++ ' ' :: content) := rfl
  rw [hread, headingLine]
  simp only [hlevel, hrest, headingText_solid h hlast]
  exact if_pos ⟨hn, rfl⟩

theorem isThematicBreak_cons {c : Char} {cs : Text} (h : isThematicBreak (c :: cs) = true) :
    (∀ d ∈ cs, d = c ∨ isBlankChar d = true) ∧ c ∈ cs := by
  simp only [isThematicBreak, Bool.and_eq_true, List.all_cons, decide_eq_true_eq,
    List.count_cons_self] at h
  obtain ⟨⟨-, -, hall⟩, hcount⟩ := h
  refine ⟨fun d hd => ?_, List.count_pos_iff.mp (by omega)⟩
  simpa using List.all_eq_true.mp hall d hd

theorem readLine_item {content : Text}
    (h : isThematicBreak ('-' :: ' ' :: content) = false) :
    readLine ('-' :: ' ' :: content) = some (.item (' ' :: content)) := by
  have hblank : ('-' :: ' ' :: content).all isBlankChar = false := rfl
  rw [readLine, hblank, h]
  rfl

theorem readLine_text {l : Text} (hhead : ∀ c, l.head? = some c → c ∉ blockChars)
    (hblock : startsBlock l = false) (h : Solid l) : readLine l = some (.text l) := by
  cases l with
  | nil => exact absurd h.1 (by simp)
  | cons c cs =>
    have hc := hhead c rfl
    have hrule : ∀ d ∈ ['#', '-', '|'], d ∈ blockChars := forall_mem_of_all (by decide)
    have hne : ∀ d ∈ ['#', '-', '|'], c ≠ d := fun d hd heq => hc (heq ▸ hrule d hd)
    simp only [List.forall_mem_cons] at hne
    obtain ⟨hsharp, hdash, hpipe, -⟩ := hne
    have hblank : isBlankChar c = false := by simpa using h.1
    have hthematic : isThematicBreak (c :: cs) = false := by
      simp only [startsBlock, Bool.or_eq_false_iff] at hblock
      exact hblock.1.1
    have hall : (c :: cs).all isBlankChar = false := by simp [hblank]
    rw [readLine, hall, hthematic]
    simp only [Bool.false_eq_true, if_false, if_neg hsharp, if_neg hpipe, hdash, false_and, hblank,
      hblock, Bool.or_self, trimBlanks_solid h]

theorem startsBlock_eq_false {l : Text}
    (hhead : ∀ c, l.head? = some c → c ∉ '_' :: blockChars)
    (hdigits : ∀ c, (l.dropWhile isAsciiDigit).head? = some c → c ≠ '.' ∧ c ≠ ')') :
    startsBlock l = false := by
  have hthematic : isThematicBreak l = false := by
    cases l with
    | nil => rfl
    | cons c l =>
      have hc := hhead c rfl
      have hrule : ∀ d ∈ ['*', '-', '_'], d ∈ '_' :: blockChars := forall_mem_of_all (by decide)
      have hne : ∀ d ∈ ['*', '-', '_'], c ≠ d := fun d hd heq => hc (heq ▸ hrule d hd)
      simp [isThematicBreak, hne]
  have hblock : l.head?.any (· ∈ blockChars) = false := by
    cases l with
    | nil => rfl
    | cons c l => simpa using fun hmem => hhead c rfl (List.mem_cons_of_mem _ hmem)
  have hordered : (l.dropWhile isAsciiDigit).head?.any (· ∈ ['.', ')']) = false := by
    cases hl : (l.dropWhile isAsciiDigit).head? with
    | none => rfl
    | some c => simpa using hdigits c hl
  rw [startsBlock, hthematic, hblock, hordered, Bool.and_false]
  rfl

variable (tag : Text → Option Nat)

/-- What an item holds, by the text behind its bullet. Five columns of blanks make it code. -/
def readItem (l : Text) : Option Item :=
  let content := trimBlanks l
  if content = [] then some .empty
  else if 6 ≤ columnBehind 1 l then some (.indented content)
  else if startsBlock content then none
  else some (.paragraph (tokens tag content))

theorem readItem_solid {content : Text} (h : Solid content) (hblock : startsBlock content = false) :
    readItem tag (' ' :: content) = some (.paragraph (tokens tag content)) := by
  have hne : content ≠ [] := by
    rintro rfl
    exact absurd h.1 (by simp)
  have hcolumn : columnBehind 1 (' ' :: content) = 2 := by
    cases content with
    | nil => exact absurd rfl hne
    | cons c content =>
      have hc : isBlankChar c = false := by simpa using h.1
      simp only [isBlankChar, Bool.or_eq_false_iff, decide_eq_false_iff_not] at hc
      rw [columnBehind, if_pos rfl, columnBehind, if_neg hc.1, if_neg hc.2]
  rw [readItem, trimBlanks_cons_blank rfl, trimBlanks_solid h]
  simp only [if_neg hne, hcolumn, hblock]
  rfl

inductive State where
  | fresh
  | text
  | item
  | header (cells : List Text)
  | table
  deriving DecidableEq

/-- A cell of the row below the first one. -/
def isDelimiterCell (cell : Text) : Bool :=
  let dashes := (cell.dropWhile (· = ':')).rdropWhile (· = ':')
  dashes ≠ [] && dashes.all (· = '-') && cell.length ≤ dashes.length + 2

/-- The elements of a line and the next state. -/
def step : State → Line → Option (List Element × State)
  | .header head, .row cells =>
    if cells.length = head.length ∧ cells.all isDelimiterCell then
      some ([.tableHead (head.map (tokens tag))], .table)
    else none
  | .header _, _ => none
  | _, .blank => some ([], .fresh)
  | _, .heading level content => some ([.heading level (tokens tag content)], .fresh)
  | _, .fenced info content => some ([.fenced info content], .fresh)
  | .fresh, .text content => some ([.paragraph (tokens tag content)], .text)
  | .fresh, .row cells => some ([], .header cells)
  | .table, .row cells => some ([.tableRow (cells.map (tokens tag))], .table)
  | .text, .item _ => none
  | _, .item content => (readItem tag content).map fun item => ([.item item], .item)
  | _, _ => none

def run : State → List Block → Option (List Element)
  | .header _, [] => none
  | _, [] => some []
  | st, b :: bs =>
    (readBlock b).bind fun l => (step tag st l).bind fun r => (run r.2 bs).map (r.1 ++ ·)

/-- The elements of a document, when it stays in the fragment. -/
def parse (s : Text) : Option (List Element) := run tag .fresh (blocks s)

example : parse (fun _ => none) "# a\n\n| b | c |\n|---|:-:|\n| d | - |\n- e *\n-" =
    some [.heading 1 [.text 'a'], .tableHead [[.text 'b'], [.text 'c']],
      .tableRow [[.text 'd'], [.text '-']], .item (.paragraph [.text 'e', .text ' ', .mark '*']),
      .item .empty] := by decide +kernel

theorem run_cons (st : State) (b : Block) (bs : List Block) :
    run tag st (b :: bs) = (readBlock b).bind fun l =>
      (step tag st l).bind fun r => (run tag r.2 bs).map (r.1 ++ ·) := by
  cases st <;> rfl

/-- In one state the lines yield the elements, whatever follows, and lead to the other state. -/
def Reads (st : State) (ls : List Text) (es : List Element) (st' : State) : Prop :=
  ∀ rest, run tag st (blocksFrom none (ls ++ rest)) =
    (run tag st' (blocksFrom none rest)).map (es ++ ·)

section

variable {tag} {st st' st'' : State} {ls ls' : List Text} {es es' : List Element}

theorem Reads.nil : Reads tag st [] [] st := by
  intro rest
  simp

theorem Reads.append (h : Reads tag st ls es st') (h' : Reads tag st' ls' es' st'') :
    Reads tag st (ls ++ ls') (es ++ es') st'' := by
  intro rest
  rw [List.append_assoc, h, h', Option.map_map]
  congr 1
  funext tail
  exact (List.append_assoc es es' tail).symm

theorem run_append_map (h : run tag st' [] = some []) (es : List Element) :
    (run tag st' []).map (es ++ ·) = some es := by
  rw [h, Option.map_some, List.append_nil]

theorem Reads.parse (h : Reads tag .fresh ls es .fresh) {s : Text} (hs : lines s = ls) :
    CommonMark.parse tag s = some es := by
  have hrun := h []
  rw [List.append_nil] at hrun
  rw [CommonMark.parse, blocks, hs, hrun]
  exact run_append_map rfl es

theorem Reads.line {l : Text} {k : Line} (hopen : opening l = none) (hl : readLine l = some k)
    (hstep : step tag st k = some (es, st')) : Reads tag st [l] es st' := by
  intro rest
  rw [List.singleton_append, blocksFrom, hopen]
  simp only [run_cons, readBlock, hl, Option.bind_some, hstep]

theorem Reads.fenced {f : Fence} {start close : Text} (hopen : opening start = some f)
    (hindent : f.indent = 0) (hls : ∀ l ∈ ls, ¬ Closes f l) (hclose : Closes f close)
    (hstep : step tag st (.fenced f.info ls) = some (es, st')) :
    Reads tag st (start :: (ls ++ [close])) es st' := by
  intro rest
  have hcontent : ls.map (contentLine f) = ls :=
    List.map_id'' (contentLine_of_indent_zero hindent) ls
  have hread := blocksFrom_content hls [] close hclose rest
  rw [hcontent, List.nil_append] at hread
  rw [List.cons_append, blocksFrom, hopen, List.append_assoc, List.singleton_append]
  simp only [hread, run_cons, readBlock, if_pos hindent, Option.bind_some, hstep]

theorem opening_of_head {l : Text} (h : ∀ c, l.head? = some c → c ≠ ' ' ∧ c ≠ '~' ∧ c ≠ grave) :
    opening l = none := by
  cases l with
  | nil => rfl
  | cons c cs =>
    obtain ⟨hspace, htilde, hgrave⟩ := h c rfl
    have hunindented : unindented (c :: cs) = c :: cs := by
      simp [unindented, hspace]
    rw [opening, hunindented, List.head?_cons, Option.bind_some]
    apply if_neg
    rintro ⟨-, -, hmarker | hmarker⟩
    · exact htilde hmarker
    · exact hgrave hmarker.1

end

def Element.inline : Element → List Token
  | .heading _ content | .paragraph content | .item (.paragraph content) => content
  | .tableHead cells | .tableRow cells => cells.flatten
  | .item _ | .fenced _ _ => []

section

variable {tag} {st st' : State} {es : List Element} {e : Element} {t : Token}

theorem exists_of_mem_flatten {cells : List Text} (h : t ∈ (cells.map (tokens tag)).flatten) :
    ∃ s, t ∈ tokens tag s := by
  obtain ⟨cell, hcell, ht⟩ := List.mem_flatten.mp h
  obtain ⟨s, -, rfl⟩ := List.mem_map.mp hcell
  exact ⟨s, ht⟩

theorem exists_of_mem_item {l : Text} {item : Item} (h : readItem tag l = some item)
    (ht : t ∈ (Element.item item).inline) : ∃ s, t ∈ tokens tag s := by
  rw [readItem] at h
  split_ifs at h
  · cases h
    cases ht
  · cases h
    cases ht
  · cases h
    exact ⟨_, ht⟩

/-- The tokens of an element are those of a line or of a part of it. -/
theorem exists_of_mem_step {l : Line} (h : step tag st l = some (es, st')) (he : e ∈ es)
    (ht : t ∈ e.inline) : ∃ s, t ∈ tokens tag s := by
  unfold step at h
  split at h
  · split_ifs at h
    cases h
    rw [List.mem_singleton.mp he] at ht
    exact exists_of_mem_flatten ht
  · cases h
  · cases h
    cases he
  · cases h
    rw [List.mem_singleton.mp he] at ht
    exact ⟨_, ht⟩
  · cases h
    rw [List.mem_singleton.mp he] at ht
    cases ht
  · cases h
    rw [List.mem_singleton.mp he] at ht
    exact ⟨_, ht⟩
  · cases h
    cases he
  · cases h
    rw [List.mem_singleton.mp he] at ht
    exact exists_of_mem_flatten ht
  · cases h
  · obtain ⟨item, hitem, hpair⟩ := Option.map_eq_some_iff.mp h
    cases hpair
    rw [List.mem_singleton.mp he] at ht
    exact exists_of_mem_item hitem ht
  · cases h

theorem exists_of_mem_run {bs : List Block} (h : run tag st bs = some es) (he : e ∈ es)
    (ht : t ∈ e.inline) : ∃ s, t ∈ tokens tag s := by
  induction bs generalizing st es with
  | nil =>
    cases st with
    | header cells => cases h
    | _ =>
      cases h
      cases he
  | cons b bs ih =>
    rw [run_cons] at h
    obtain ⟨l, -, h⟩ := Option.bind_eq_some_iff.mp h
    obtain ⟨r, hstep, h⟩ := Option.bind_eq_some_iff.mp h
    obtain ⟨tail, htail, rfl⟩ := Option.map_eq_some_iff.mp h
    rcases List.mem_append.mp he with he | he
    · exact exists_of_mem_step hstep he ht
    · exact ih htail he

end

theorem spanContent_of_mem_parse {s content : Text} {es : List Element} {e : Element} {n : Nat}
    (h : parse tag s = some es) (he : e ∈ es) (ht : .code n content ∈ e.inline) :
    SpanContent n content := by
  obtain ⟨l, hl⟩ := exists_of_mem_run h he ht
  exact spanContent_of_mem_tokensFrom hl

end Jitgen.CommonMark
