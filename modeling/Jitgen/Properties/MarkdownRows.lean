import Jitgen.Properties.CodeBlocks
import Jitgen.Properties.MarkdownValues

/-!
# Rows of the Markdown export

Every row of the template is read as one element, whatever its values are, as long as those between
backticks fit into a code span.
-/

namespace Jitgen.Markdown

open Text CommonMark

/-- A character of a cell: the table reader takes the backslash of a pipe away. -/
def cellChar (c : Char) : Text := if c = '|' then [c] else mdInlineChar c

private theorem cellsFrom_escape (v acc t : Text) :
    cellsFrom acc (escape v ++ t) = cellsFrom (acc ++ v.flatMap cellChar) t := by
  induction v generalizing acc with
  | nil => rw [List.flatMap_nil, List.append_nil]; rfl
  | cons c v ih =>
    rw [escape_cons, List.append_assoc, List.flatMap_cons, ← List.append_assoc acc, ← ih]
    by_cases hpipe : c = '|'
    · subst hpipe
      exact cellsFrom_escaped acc _
    · have hfree : '|' ∉ mdInlineChar c := fun hmem =>
        hpipe (eq_of_mem_mdInlineChar (by decide) (by decide) hmem)
      rw [cellsFrom_plain hfree, cellChar, if_neg hpipe]

private theorem tokens_cell (tag : Text → Option Nat) (v : Text) :
    tokens tag (v.flatMap cellChar) = literal v := by
  induction v with
  | nil => rfl
  | cons c v ih =>
    rw [List.flatMap_cons, literal_cons, ← ih, cellChar]
    split_ifs with hpipe
    · subst hpipe
      exact tokens_ordinary tag (by decide) _
    · exact tokens_mdInlineChar tag c _

private theorem keepsBlanks_cell {v : Text} (h : OneLine v) : KeepsBlanks cellChar v := by
  intro c hc
  by_cases hpipe : c = '|'
  · subst hpipe
    have hcell : cellChar '|' = ['|'] := rfl
    rw [if_neg (by decide), hcell]
    exact ⟨List.cons_ne_nil _ _, List.forall_mem_singleton.mpr rfl⟩
  · rw [cellChar, if_neg hpipe]
    exact keepsBlanks_escape h c hc

/-- A segment without the blanks around it. -/
def Segment.trimmed : Segment → Segment
  | .lit t => .lit (trimBlanks t)
  | .span v => .span v
  | .shown v => .shown (trimBlanks v)

/-- What a cell of a table can be: template text without pipes or a shown value. -/
def Segment.IsCell : Segment → Prop
  | .lit t => t.all (fun c => isTemplateChar c && c ≠ '|') = true
  | .span _ => False
  | .shown v => OneLine v

private theorem template_of_cell {t : Text} (h : (Segment.lit t).IsCell) :
    t.all isTemplateChar = true := by
  apply List.all_eq_true.mpr
  intro c hc
  have hcell := List.all_eq_true.mp h c hc
  rw [Bool.and_eq_true] at hcell
  exact hcell.1

/-- Text of a cell as the table reader passes it on. -/
def Segment.cellText : Segment → Text
  | .shown v => v.flatMap cellChar
  | c => c.source

private theorem cellsFrom_source {c : Segment} (h : c.IsCell) (acc t : Text) :
    cellsFrom acc (c.source ++ t) = cellsFrom (acc ++ c.cellText) t := by
  cases c with
  | lit text =>
    apply cellsFrom_plain
    intro hmem
    have := List.all_eq_true.mp h _ hmem
    simp at this
  | span v => cases h
  | shown v => exact cellsFrom_escape v acc t

private theorem tokens_cellText (tag : Text → Option Nat) {c : Segment} (h : c.IsCell) :
    tokens tag (trimBlanks c.cellText) = c.trimmed.inline := by
  cases c with
  | lit t =>
    have hplain : (trimBlanks t).all (fun c => isOrdinary c || isMark c) = true := by
      apply plain_of_template
      apply List.all_eq_true.mpr
      intro d hd
      have hmem : d ∈ t := (List.dropWhile_suffix _).mem ((List.rdropWhile_prefix _ _).mem hd)
      exact List.all_eq_true.mp (template_of_cell h) d hmem
    have htokens := tokens_plain tag hplain []
    rw [List.append_nil] at htokens
    exact htokens.trans (List.append_nil _)
  | span v => cases h
  | shown v =>
    show tokens tag (trimBlanks (v.flatMap cellChar)) = literal (trimBlanks v)
    rw [trimBlanks_flatMap (keepsBlanks_cell h), tokens_cell]

/-- The cells of a row, each between blanks and behind the first one's pipe. -/
def rowLine (cells : List Segment) : Text :=
  '|' :: cells.flatMap fun c => ' ' :: (c.source ++ [' ', '|'])

private theorem readLine_rowLine {cells : List Segment} (h : ∀ c ∈ cells, c.IsCell) :
    CommonMark.readLine (rowLine cells) = some (.row (cells.map fun c => trimBlanks c.cellText)) := by
  rw [rowLine, readLine_row]
  congr 2
  induction cells with
  | nil => rfl
  | cons c cells ih =>
    have hc := h c List.mem_cons_self
    have hrest := ih fun d hd => h d (List.mem_cons_of_mem c hd)
    have hlast : (' ' :: c.cellText ++ [' ']).getLast? ≠ some '\\' := by
      rw [List.getLast?_concat]
      decide
    have htrim : trimBlanks (' ' :: c.cellText ++ [' ']) = trimBlanks c.cellText := by
      rw [trimBlanks_concat_blank rfl, trimBlanks_cons_blank rfl]
    calc cellsFrom [] (' ' :: (c.source ++ [' ', '|']) ++
          cells.flatMap fun c => ' ' :: (c.source ++ [' ', '|']))
        = cellsFrom [' '] (c.source ++ (' ' :: '|' ::
            cells.flatMap fun c => ' ' :: (c.source ++ [' ', '|']))) := by
          simp [cellsFrom]
      _ = cellsFrom (' ' :: c.cellText ++ [' ']) ('|' ::
            cells.flatMap fun c => ' ' :: (c.source ++ [' ', '|'])) := by
          rw [cellsFrom_source hc]
          rfl
      _ = trimBlanks c.cellText :: cells.map fun c => trimBlanks c.cellText := by
          rw [cellsFrom_pipe hlast, htrim, hrest]

inductive Row where
  | blank
  | heading (level : Nat) (content : List Segment)
  | paragraph (t : Text)
  | item (content : List Segment)
  | note (v : Text)
  | tableHead (names : List Text)
  | tableRow (cells : List Segment)
  | code (language source : Text)

def Row.lines : Row → List Text
  | .blank => [[]]
  | .heading level content => [List.replicate level '#' ++ ' ' :: source content]
  | .paragraph t => [t]
  | .item content => ['-' :: ' ' :: source content]
  | .note v => ['-' :: ' ' :: escape v]
  | .tableHead names =>
    [rowLine (names.map .lit), '|' :: names.flatMap fun _ => ['-', '-', '-', '|']]
  | .tableRow cells => [rowLine cells]
  | .code language source => codeFenceLines language source

/-- What an item of one escaped text shows: behind four or more columns of blanks it is code. -/
def noteItem (v : Text) : Item :=
  let content := trimBlanks v
  if content = [] then .empty
  else if 6 ≤ columnBehind 2 v then .indented (escape content)
  else .paragraph (literal content)

/-- What a row is to be read as. -/
def Row.elements : Row → List Element
  | .blank => []
  | .heading level content => [.heading level (inline content)]
  | .paragraph t => [.paragraph (t.map plainToken)]
  | .item content => [.item (.paragraph (inline content))]
  | .note v => [.item (noteItem v)]
  | .tableHead names => [.tableHead (names.map fun n => (Segment.lit n).trimmed.inline)]
  | .tableRow cells => [.tableRow (cells.map fun c => c.trimmed.inline)]
  | .code language source =>
    [.fenced (langSlug language) (CommonMark.lines (mdCodeBlock source capSource))]

/-- The values of a row that stand between backticks. -/
def Row.spans : Row → List Text
  | .heading _ content | .item content => Markdown.spans content
  | _ => []

/-- The state behind a row, where the row can stand. -/
def Row.next : Row → State → Option State
  | _, .header _ => none
  | .blank, _ | .heading _ _, _ | .code _ _, _ => some .fresh
  | .paragraph _, .fresh => some .text
  | .tableHead _, .fresh => some .table
  | .tableRow _, .table => some .table
  | .item _, .text | .note _, .text => none
  | .item _, _ | .note _, _ => some .item
  | _, _ => none

/-- The first and the last character of a segment of the template. -/
def firstChar (segments : List Segment) : Option Char :=
  segments.head?.bind fun
    | .lit t => t.head?
    | .span _ => some backtick
    | .shown _ => none

def lastChar (segments : List Segment) : Option Char :=
  segments.getLast?.bind fun
    | .lit t => t.getLast?
    | .span _ => some backtick
    | .shown _ => none

/-- What the template owes to the reader. -/
def Row.Sound : Row → Prop
  | .blank | .code _ _ => True
  | .heading level content => 1 ≤ level ∧ level ≤ 6 ∧ Laid content ∧
    (firstChar content).any (!isBlankChar ·) ∧
      (lastChar content).any fun c => !isBlankChar c && c ≠ '#'
  | .paragraph t =>
    t.all isTemplateChar = true ∧ t.head? = some '_' ∧ startsBlock t = false ∧ Solid t
  | .item content => Laid content ∧ (firstChar content).any isAsciiLower ∧
    (lastChar content).any (!isBlankChar ·)
  | .note v => OneLine v
  | .tableHead names => ∀ n ∈ names, (Segment.lit n).IsCell
  | .tableRow cells => ∀ c ∈ cells, c.IsCell

section

variable {segments : List Segment} {c : Char}

private theorem head_source (h : firstChar segments = some c) :
    (source segments).head? = some c := by
  cases segments with
  | nil => cases h
  | cons segment segments =>
    cases segment with
    | lit t =>
      have ht : t.head? = some c := h
      show (t ++ source segments).head? = some c
      rw [List.head?_append, ht]
      rfl
    | span v => exact h
    | shown v => cases h

private theorem getLast_source (h : lastChar segments = some c) :
    (source segments).getLast? = some c := by
  induction segments using List.reverseRecOn with
  | nil => cases h
  | append_singleton segments segment =>
    rw [lastChar, List.getLast?_concat, Option.bind_some] at h
    have hsource : source (segments ++ [segment]) = source segments ++ segment.source := by
      simp [source]
    rw [hsource, List.getLast?_append]
    cases segment with
    | lit t =>
      have ht : t.getLast? = some c := h
      simp [Segment.source, ht]
    | span v =>
      obtain rfl := Option.some.inj h
      have hlast : (Segment.span v).source = (backtick :: escape v) ++ [backtick] := rfl
      rw [hlast, List.getLast?_concat]
      rfl
    | shown v => cases h

end

private theorem solid_source {segments : List Segment} {p q : Char → Bool}
    (hfirst : (firstChar segments).any p) (hlast : (lastChar segments).any q)
    (hp : ∀ c, p c = true → isBlankChar c = false) (hq : ∀ c, q c = true → isBlankChar c = false) :
    Solid (source segments) := by
  obtain ⟨c, hc, hpc⟩ := (Option.any_eq_true _ _).mp hfirst
  obtain ⟨d, hd, hqd⟩ := (Option.any_eq_true _ _).mp hlast
  constructor
  · rw [head_source hc]
    simp [hp c hpc]
  · rw [getLast_source hd]
    simp [hq d hqd]

section

variable {tag : Text → Option Nat} {st st' : State}

private theorem reads_blank (hnext : Row.blank.next st = some st') :
    Reads tag st Row.blank.lines Row.blank.elements st' := by
  apply Reads.line rfl (k := .blank) rfl
  cases st <;> cases hnext <;> rfl

private theorem reads_heading {level : Nat} {content : List Segment}
    (hrow : (Row.heading level content).Sound)
    (hspans : ∀ v ∈ (Row.heading level content).spans, Spannable v)
    (hnext : (Row.heading level content).next st = some st') :
    Reads tag st (Row.heading level content).lines (Row.heading level content).elements st' := by
  obtain ⟨hpos, hlevel, hlaid, hfirst, hlast⟩ := hrow
  have hsolid : Solid (source content) := by
    apply solid_source hfirst hlast
    · simp
    · intro c hc
      rw [Bool.and_eq_true] at hc
      simpa using hc.1
  have hsharp : (source content).getLast? ≠ some '#' := by
    obtain ⟨c, hc, hqc⟩ := (Option.any_eq_true _ _).mp hlast
    rw [getLast_source hc]
    rintro h
    obtain rfl := Option.some.inj h
    simp at hqc
  have hopen : opening (List.replicate level '#' ++ ' ' :: source content) = none := by
    apply opening_of_head
    intro c hc
    cases level with
    | zero => omega
    | succ level =>
      obtain rfl := Option.some.inj hc
      decide
  apply Reads.line hopen (readLine_heading hpos hlevel hsolid hsharp)
  rw [Row.elements, ← hlaid.tokens_source tag hspans]
  cases st <;> cases hnext <;> rfl

private theorem reads_paragraph {t : Text} (hrow : (Row.paragraph t).Sound)
    (hnext : (Row.paragraph t).next st = some st') :
    Reads tag st (Row.paragraph t).lines (Row.paragraph t).elements st' := by
  obtain ⟨hplain, hhead, hblock, hsolid⟩ := hrow
  have hopen : opening t = none := by
    apply opening_of_head
    intro c hc
    rw [hhead] at hc
    obtain rfl := Option.some.inj hc
    decide
  have hread : CommonMark.readLine t = some (.text t) := by
    apply readLine_text _ hblock hsolid
    intro c hc
    rw [hhead] at hc
    obtain rfl := Option.some.inj hc
    decide
  have htokens := tokens_plain tag (plain_of_template hplain) []
  rw [List.append_nil] at htokens
  apply Reads.line hopen hread
  rw [Row.elements, ← show tokens tag t = t.map plainToken from htokens.trans (List.append_nil _)]
  cases st <;> cases hnext
  rfl

private theorem lower_plain {c : Char} (h : isAsciiLower c = true) :
    isBlankChar c = false ∧ c ≠ '-' ∧ isAsciiDigit c = false ∧ c ∉ '_' :: blockChars := by
  have hother : ∀ d ∈ ' ' :: '\t' :: '_' :: blockChars, isAsciiLower d = false :=
    forall_mem_of_all (by decide)
  have hne : ∀ d ∈ ' ' :: '\t' :: '_' :: blockChars, c ≠ d := by
    rintro d hd rfl
    rw [hother c hd] at h
    cases h
  have hdigit : isAsciiDigit c = false := by
    by_contra hc
    simp only [isAsciiLower, isAsciiDigit, Bool.and_eq_true, decide_eq_true_eq,
      Bool.not_eq_false] at h hc
    have hle : 'a' ≤ '9' := Char.le_trans h.1 hc.2
    exact absurd hle (by decide)
  refine ⟨?_, hne '-' (by decide), hdigit, fun hmem => hne c ?_ rfl⟩
  · simp [isBlankChar, hne ' ' (by decide), hne '\t' (by decide)]
  · exact List.mem_cons_of_mem _ (List.mem_cons_of_mem _ hmem)

private theorem reads_item {content : List Segment} (hrow : (Row.item content).Sound)
    (hspans : ∀ v ∈ (Row.item content).spans, Spannable v)
    (hnext : (Row.item content).next st = some st') :
    Reads tag st (Row.item content).lines (Row.item content).elements st' := by
  obtain ⟨hlaid, hfirst, hlast⟩ := hrow
  have hsolid : Solid (source content) := by
    apply solid_source hfirst hlast
    · exact fun c hc => (lower_plain hc).1
    · simp
  obtain ⟨c, hc, hlower⟩ := (Option.any_eq_true _ _).mp hfirst
  obtain ⟨hblank, hdash, hdigit, hblock⟩ := lower_plain hlower
  obtain ⟨cs, hcs⟩ := List.head?_eq_some_iff.mp (head_source hc)
  have hthematic : isThematicBreak ('-' :: ' ' :: source content) = false := by
    by_contra h
    have hall := (isThematicBreak_cons (by simpa using h)).1 c (by simp [hcs])
    rcases hall with hall | hall
    · exact hdash hall
    · rw [hblank] at hall
      cases hall
  have hstart : startsBlock (source content) = false := by
    apply startsBlock_eq_false
    · intro d hd
      rw [hcs] at hd
      obtain rfl := Option.some.inj hd
      exact hblock
    · intro d hd
      rw [hcs, List.dropWhile_cons_of_neg (by simp [hdigit])] at hd
      obtain rfl := Option.some.inj hd
      constructor
      · rintro rfl
        cases hlower
      · rintro rfl
        cases hlower
  have hitem := readItem_solid tag hsolid hstart
  rw [hlaid.tokens_source tag hspans] at hitem
  apply Reads.line (opening_of_head (by simp; decide)) (readLine_item hthematic)
  cases st <;> cases hnext <;> simp [step, hitem, Row.elements]

private theorem thematic_escape (v : Text) : isThematicBreak ('-' :: ' ' :: escape v) = false := by
  by_contra h
  obtain ⟨hall, hmem⟩ := isThematicBreak_cons (by simpa using h)
  have hdash : '-' ∈ escape v := by simpa using hmem
  have hv := mem_of_mem_escape (by decide) (by decide) hdash
  have hback : '\\' ∈ escape v := List.mem_flatMap.mpr ⟨'-', hv, by decide⟩
  exact absurd (hall '\\' (by simp [hback])) (by decide)

private theorem readItem_escape {v : Text} (hv : OneLine v) :
    readItem tag (' ' :: escape v) = some (noteItem v) := by
  have htrim : trimBlanks (' ' :: escape v) = escape (trimBlanks v) := by
    rw [trimBlanks_cons_blank rfl, trimBlanks_escape hv]
  have hcolumn : columnBehind 1 (' ' :: escape v) = columnBehind 2 v :=
    columnBehind_flatMap (keepsBlanks_escape hv) 2
  rw [readItem, noteItem, htrim, hcolumn]
  simp only [escape_eq_nil_iff, startsBlock_escape, tokens_escape_self, Bool.false_eq_true,
    if_false]
  split_ifs
  · rfl
  · rfl
  · rfl

private theorem reads_note {v : Text} (hrow : (Row.note v).Sound)
    (hnext : (Row.note v).next st = some st') :
    Reads tag st (Row.note v).lines (Row.note v).elements st' := by
  have hitem : readItem tag (' ' :: escape v) = some (noteItem v) := readItem_escape hrow
  apply Reads.line (opening_of_head (by simp; decide)) (readLine_item (thematic_escape v))
  cases st <;> cases hnext <;> simp [step, hitem, Row.elements]

private theorem delimiterCells (names : List Text) :
    cellsFrom [] (names.flatMap fun _ => ['-', '-', '-', '|']) =
      names.map fun _ => ['-', '-', '-'] := by
  induction names with
  | nil => rfl
  | cons n names ih =>
    have hcell : ∀ t, cellsFrom [] (['-', '-', '-'] ++ '|' :: t) =
        ['-', '-', '-'] :: cellsFrom [] t := by
      intro t
      rw [cellsFrom_plain (by decide), cellsFrom_pipe (by decide)]
      rfl
    exact (hcell _).trans (congrArg _ ih)

private theorem reads_tableHead {names : List Text} (hrow : (Row.tableHead names).Sound)
    (hnext : (Row.tableHead names).next st = some st') :
    Reads tag st (Row.tableHead names).lines (Row.tableHead names).elements st' := by
  have hcells : ∀ c ∈ names.map Segment.lit, c.IsCell := List.forall_mem_map.mpr hrow
  have hdelimiter : CommonMark.readLine ('|' :: names.flatMap fun _ => ['-', '-', '-', '|']) =
      some (.row (names.map fun _ => ['-', '-', '-'])) := by
    rw [readLine_row, delimiterCells]
  have hheads : ((names.map Segment.lit).map fun c => trimBlanks c.cellText).map (tokens tag) =
      names.map fun n => (Segment.lit n).trimmed.inline := by
    rw [List.map_map, List.map_map]
    exact List.map_congr_left fun n hn => tokens_cellText tag (hrow n hn)
  have hlength : (names.map fun _ => ['-', '-', '-']).length =
      ((names.map Segment.lit).map fun c => trimBlanks c.cellText).length := by
    simp
  have hdashes : (names.map fun _ => ['-', '-', '-']).all isDelimiterCell = true := by
    rw [List.all_map]
    exact List.all_eq_true.mpr fun _ _ => rfl
  cases st <;> cases hnext
  have hhead : Reads tag .fresh [rowLine (names.map Segment.lit)] []
      (.header ((names.map Segment.lit).map fun c => trimBlanks c.cellText)) :=
    Reads.line (opening_of_head (by simp [rowLine]; decide)) (readLine_rowLine hcells) rfl
  apply hhead.append
  apply Reads.line (opening_of_head (by simp; decide)) hdelimiter
  rw [step, if_pos ⟨hlength, hdashes⟩, hheads]

private theorem reads_tableRow {cells : List Segment} (hrow : (Row.tableRow cells).Sound)
    (hnext : (Row.tableRow cells).next st = some st') :
    Reads tag st (Row.tableRow cells).lines (Row.tableRow cells).elements st' := by
  have hcells : (cells.map fun c => trimBlanks c.cellText).map (tokens tag) =
      cells.map fun c => c.trimmed.inline := by
    rw [List.map_map]
    exact List.map_congr_left fun c hc => tokens_cellText tag (hrow c hc)
  cases st <;> cases hnext
  apply Reads.line (opening_of_head (by simp [rowLine]; decide)) (readLine_rowLine hrow)
  rw [step, hcells]
  rfl

private theorem reads_code {language source : Text}
    (hnext : (Row.code language source).next st = some st') :
    Reads tag st (Row.code language source).lines (Row.code language source).elements st' := by
  have hlines : codeFenceLines language source =
      (codeFenceLine language :: (CommonMark.lines (mdCodeBlock source capSource) ++
        [("~~~" : Text)])) ++ [[]] := by
    simp [codeFenceLines]
  have hblock : Reads tag st (codeFenceLine language ::
      (CommonMark.lines (mdCodeBlock source capSource) ++ [("~~~" : Text)]))
      [.fenced (langSlug language) (CommonMark.lines (mdCodeBlock source capSource))] .fresh := by
    apply Reads.fenced (opening_codeFenceLine language) rfl (fun _ => not_closes_body)
      (closes_fence language)
    cases st <;> first | rfl | cases hnext
  have hst : st' = .fresh := by
    cases st <;> cases hnext <;> rfl
  subst hst
  show Reads tag st (codeFenceLines language source) _ _
  rw [hlines]
  exact hblock.append (reads_blank rfl)

private theorem reads_row {row : Row} (hrow : row.Sound) (hspans : ∀ v ∈ row.spans, Spannable v)
    (hnext : row.next st = some st') : Reads tag st row.lines row.elements st' := by
  cases row with
  | blank => exact reads_blank hnext
  | heading level content => exact reads_heading hrow hspans hnext
  | paragraph t => exact reads_paragraph hrow hnext
  | item content => exact reads_item hrow hspans hnext
  | note v => exact reads_note hrow hnext
  | tableHead names => exact reads_tableHead hrow hnext
  | tableRow cells => exact reads_tableRow hrow hnext
  | code language source => exact reads_code hnext

private theorem oneLine_cell {c : Segment} (h : c.IsCell) : OneLine c.source := by
  cases c with
  | lit t => exact oneLine_template (template_of_cell h)
  | span v => cases h
  | shown v => exact oneLine_escape v

private theorem oneLine_rowLine {cells : List Segment} (h : ∀ c ∈ cells, c.IsCell) :
    OneLine (rowLine cells) := by
  intro d hd
  rcases List.mem_cons.mp hd with rfl | hd
  · decide
  obtain ⟨c, hc, hd⟩ := List.mem_flatMap.mp hd
  simp only [List.mem_cons, List.mem_append, List.not_mem_nil, or_false] at hd
  rcases hd with rfl | hd | rfl | rfl
  · decide
  · exact oneLine_cell (h c hc) d hd
  · decide
  · decide

/-- No row ends a line inside. -/
private theorem oneLine_lines {row : Row} (hrow : row.Sound) : ∀ l ∈ row.lines, OneLine l := by
  have hbehind : ∀ {c l}, c ≠ '\n' ∧ c ≠ '\r' → OneLine l → OneLine (c :: l) := fun hc hl =>
    List.forall_mem_cons.mpr ⟨hc, hl⟩
  cases row with
  | blank => exact List.forall_mem_singleton.mpr fun _ hc => absurd hc List.not_mem_nil
  | heading level content =>
    have hsharps : OneLine (List.replicate level '#') := fun c hc =>
      List.eq_of_mem_replicate hc ▸ by decide
    exact List.forall_mem_singleton.mpr
      (hsharps.append (hbehind (by decide) hrow.2.2.1.oneLine_source))
  | paragraph t => exact List.forall_mem_singleton.mpr (oneLine_template hrow.1)
  | item content =>
    exact List.forall_mem_singleton.mpr
      (hbehind (by decide) (hbehind (by decide) hrow.1.oneLine_source))
  | note v =>
    exact List.forall_mem_singleton.mpr
      (hbehind (by decide) (hbehind (by decide) (oneLine_escape v)))
  | tableHead names =>
    have hdashes : OneLine ('|' :: names.flatMap fun _ => ['-', '-', '-', '|']) := by
      have hcell : ∀ c ∈ ['-', '-', '-', '|'], c ≠ '\n' ∧ c ≠ '\r' :=
        forall_mem_of_all (by decide)
      apply hbehind (by decide)
      intro c hc
      obtain ⟨_, -, hc⟩ := List.mem_flatMap.mp hc
      exact hcell c hc
    exact List.forall_mem_cons.mpr ⟨oneLine_rowLine (List.forall_mem_map.mpr hrow),
      List.forall_mem_singleton.mpr hdashes⟩
  | tableRow cells => exact List.forall_mem_singleton.mpr (oneLine_rowLine hrow)
  | code language source =>
    intro l hl c hc
    have hline := unended_codeFenceLines hl
    exact ⟨fun heq => hline.1 (heq ▸ hc), fun heq => hline.2 (heq ▸ hc)⟩

/-- The state behind rows that stand where they can. -/
def walk : State → List Row → Option State
  | st, [] => some st
  | st, row :: rows => (row.next st).bind (walk · rows)

theorem walk_append (st : State) (rows rows' : List Row) :
    walk st (rows ++ rows') = (walk st rows).bind (walk · rows') := by
  induction rows generalizing st with
  | nil => rfl
  | cons row rows ih =>
    rw [List.cons_append, walk, walk, Option.bind_assoc]
    congr 1
    exact funext ih

theorem walk_flatMap {α : Type} {f : α → List Row} {l : List α}
    (h : ∀ x ∈ l, walk st (f x) = some st) : walk st (l.flatMap f) = some st := by
  induction l with
  | nil => rfl
  | cons x l ih =>
    rw [List.flatMap_cons, walk_append, h x List.mem_cons_self, Option.bind_some]
    exact ih fun y hy => h y (List.mem_cons_of_mem x hy)

private theorem reads_rows {rows : List Row} (hrows : ∀ row ∈ rows, row.Sound)
    (hspans : ∀ v ∈ rows.flatMap Row.spans, Spannable v) (hwalk : walk st rows = some st') :
    Reads tag st (rows.flatMap Row.lines) (rows.flatMap Row.elements) st' := by
  induction rows generalizing st with
  | nil =>
    cases hwalk
    exact Reads.nil
  | cons row rows ih =>
    obtain ⟨mid, hnext, hrest⟩ := Option.bind_eq_some_iff.mp hwalk
    rw [List.flatMap_cons] at hspans
    have hrow : Reads tag st row.lines row.elements mid :=
      reads_row (hrows row List.mem_cons_self)
        (fun v hv => hspans v (List.mem_append_left _ hv)) hnext
    exact hrow.append (ih (fun r hr => hrows r (List.mem_cons_of_mem row hr))
      (fun v hv => hspans v (List.mem_append_right _ hv)) hrest)

end

/-- The text of rows. -/
def text (rows : List Row) : Text := unlines (rows.flatMap Row.lines)

theorem text_append (rows rows' : List Row) : text (rows ++ rows') = text rows ++ text rows' := by
  rw [text, List.flatMap_append, unlines_append]
  rfl

theorem parse_text {tag : Text → Option Nat} {rows : List Row} (hrows : ∀ row ∈ rows, row.Sound)
    (hwalk : walk .fresh rows = some .fresh) (hspans : ∀ v ∈ rows.flatMap Row.spans, Spannable v) :
    CommonMark.parse tag (text rows) = some (rows.flatMap Row.elements) := by
  apply (reads_rows hrows hspans hwalk).parse
  apply lines_unlines_unended
  intro l hl
  obtain ⟨row, hrow, hl⟩ := List.mem_flatMap.mp hl
  have hline := oneLine_lines (hrows row hrow) l hl
  exact ⟨fun hmem => (hline _ hmem).1 rfl, fun hmem => (hline _ hmem).2 rfl⟩

private theorem code_of_mem_spans {row : Row} {v : Text} (h : v ∈ row.spans) :
    ∃ e ∈ row.elements, .code 1 (escape v) ∈ e.inline := by
  have hcontent : ∀ content : List Segment, v ∈ spans content →
      .code 1 (escape v) ∈ inline content := by
    intro content hv
    obtain ⟨segment, hsegment, hspan⟩ := List.mem_filterMap.mp hv
    cases segment with
    | span w =>
      obtain rfl := Option.some.inj hspan
      exact List.mem_flatMap.mpr ⟨_, hsegment, List.mem_singleton.mpr rfl⟩
    | _ => cases hspan
  cases row with
  | heading level content => exact ⟨_, List.mem_singleton.mpr rfl, hcontent content h⟩
  | item content => exact ⟨_, List.mem_singleton.mpr rfl, hcontent content h⟩
  | _ => cases h

theorem spannable_of_parse {tag : Text → Option Nat} {s : Text} {rows : List Row}
    (h : CommonMark.parse tag s = some (rows.flatMap Row.elements)) :
    ∀ v ∈ rows.flatMap Row.spans, Spannable v := by
  intro v hv
  obtain ⟨row, hrow, hv⟩ := List.mem_flatMap.mp hv
  obtain ⟨e, he, hcode⟩ := code_of_mem_spans hv
  have hmem : e ∈ rows.flatMap Row.elements := List.mem_flatMap.mpr ⟨row, hrow, he⟩
  exact spannable_of_spanContent (spanContent_of_mem_parse tag h hmem hcode)

end Jitgen.Markdown
