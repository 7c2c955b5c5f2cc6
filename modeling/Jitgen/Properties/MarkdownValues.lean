import Jitgen.Framework.MarkdownFragment
import Jitgen.Properties.CodeBlocks

/-!
# Values of the Markdown export

A line is written from template text and from values, which are escaped in one way between backticks
and elsewhere. Outside a code span a value is literal text; between backticks the backslashes are
part of what is shown, and a backtick ends the span.
-/

namespace Jitgen.Markdown

open Text CommonMark

/-- A value as it is shown, before it is escaped. -/
def oneLine (s : Text) (max : Nat) : Text :=
  (sanitize s max).map fun c => if c = '\n' ∨ c = '\r' then ' ' else c

def escape (v : Text) : Text := v.flatMap mdInlineChar

/-- What a reader sees of a character that is not in a code span. -/
def shownChar (c : Char) : Text := if c ∈ escapedChars then [c] else mdInlineChar c

/-- A value as text and nothing else. -/
def literal (v : Text) : List Token := (v.flatMap shownChar).map .text

theorem literal_cons (c : Char) (v : Text) :
    literal (c :: v) = (shownChar c).map .text ++ literal v := by
  simp [literal]

theorem mdInline_eq (s : Text) (max : Nat) : mdInline s max = escape (oneLine s max) := by
  rw [mdInline, escape, oneLine, List.flatMap_map]
  congr 1
  funext c
  by_cases hline : c = '\n' ∨ c = '\r'
  · simp only [if_pos hline, mdInlineChar]
    decide
  · simp only [if_neg hline]

theorem escape_cons (c : Char) (v : Text) : escape (c :: v) = mdInlineChar c ++ escape v := rfl

theorem escape_append (v w : Text) : escape (v ++ w) = escape v ++ escape w := List.flatMap_append

def references : List Text := ["&amp;", "&lt;", "&gt;"]

private theorem mdInlineChar_cases (c : Char) :
    (c = '\n' ∨ c = '\r') ∧ mdInlineChar c = [' '] ∨
      c ∈ ['&', '<', '>'] ∧ mdInlineChar c ∈ references ∨
      c ∈ escapedChars ∧ mdInlineChar c = ['\\', c] ∨
      c ∉ escapedChars ∧ c ∉ ['\n', '\r', '&', '<', '>'] ∧ mdInlineChar c = [c] := by
  unfold mdInlineChar
  split_ifs with hline hamp hless hgreater hescaped
  · exact .inl ⟨hline, rfl⟩
  · subst hamp
    exact .inr (.inl (by decide))
  · subst hless
    exact .inr (.inl (by decide))
  · subst hgreater
    exact .inr (.inl (by decide))
  · exact .inr (.inr (.inl ⟨hescaped, rfl⟩))
  · refine .inr (.inr (.inr ⟨by simpa using hescaped, ?_, rfl⟩))
    simp [not_or.mp hline, hamp, hless, hgreater]

private theorem escaped_punctuation : ∀ c ∈ escapedChars, isPunctuation c = true :=
  forall_mem_of_all (by decide)

private theorem ordinary_of_not_escaped {c : Char} (h : c ∉ escapedChars) (hless : c ≠ '<') :
    isOrdinary c = true := by
  have hspecial : ∀ d ∈ ['\\', backtick, '*', '_', '[', ']'], d ∈ escapedChars :=
    forall_mem_of_all (by decide)
  have hne : ∀ d ∈ ['\\', backtick, '*', '_', '[', ']'], c ≠ d := fun d hd heq =>
    h (heq ▸ hspecial d hd)
  simp only [List.forall_mem_cons] at hne
  obtain ⟨hback, hgrave, hstar, hscore, hopen, hclose, -⟩ := hne
  have hgrave' : c ≠ grave := hgrave
  simp [isOrdinary, isMark, hback, hgrave', hless, hstar, hscore, hopen, hclose]

variable (tag : Text → Option Nat)

private theorem tokens_ordinaries {s : Text} (hs : s.all isOrdinary = true) (rest : Text) :
    tokens tag (s ++ rest) = s.map .text ++ tokens tag rest := by
  induction s with
  | nil => rfl
  | cons c s ih =>
    rw [List.all_cons, Bool.and_eq_true] at hs
    rw [List.cons_append, tokens_ordinary tag hs.1, ih hs.2]
    rfl

theorem tokens_mdInlineChar (c : Char) (rest : Text) :
    tokens tag (mdInlineChar c ++ rest) = (shownChar c).map .text ++ tokens tag rest := by
  have hreferences : ∀ t ∈ references, t.all isOrdinary = true := by decide
  have hplain : ∀ c ∈ ['&', '<', '>'], c ∉ escapedChars := forall_mem_of_all (by decide)
  rw [shownChar]
  rcases mdInlineChar_cases c with ⟨hline, h⟩ | ⟨hc, h⟩ | ⟨hc, h⟩ | ⟨hc, hother, h⟩
  · have hc : c ∉ escapedChars := by rcases hline with rfl | rfl <;> decide
    rw [if_neg hc, h]
    exact tokens_ordinary tag (by decide) rest
  · rw [if_neg (hplain c hc)]
    exact tokens_ordinaries tag (hreferences _ h) rest
  · rw [if_pos hc, h]
    exact tokens_escaped tag (escaped_punctuation c hc) rest
  · rw [if_neg hc, h]
    have hless : c ≠ '<' := fun heq => hother (by simp [heq])
    exact tokens_ordinary tag (ordinary_of_not_escaped hc hless) rest

private theorem tokens_escape (v rest : Text) :
    tokens tag (escape v ++ rest) = literal v ++ tokens tag rest := by
  induction v with
  | nil => rfl
  | cons c v ih =>
    rw [escape_cons, literal_cons, List.append_assoc, List.append_assoc, tokens_mdInlineChar, ih]

theorem tokens_escape_self (v : Text) : tokens tag (escape v) = literal v := by
  have htokens := tokens_escape tag v []
  rw [List.append_nil] at htokens
  exact htokens.trans (List.append_nil _)

private theorem mdInlineChar_ne_nil (c : Char) : mdInlineChar c ≠ [] := by
  have hreferences : ∀ t ∈ references, t ≠ [] := by decide
  rcases mdInlineChar_cases c with ⟨-, h⟩ | ⟨-, h⟩ | ⟨-, h⟩ | ⟨-, -, h⟩
  · simp [h]
  · exact hreferences _ h
  · simp [h]
  · simp [h]

theorem eq_of_mem_mdInlineChar {c d : Char} (hd : d ∈ escapedChars) (hback : d ≠ '\\')
    (h : d ∈ mdInlineChar c) : c = d := by
  have hreferences : ∀ t ∈ references, escapedChars.all (· ∉ t) = true := by decide
  have hblank : ∀ d ∈ escapedChars, d ≠ ' ' := forall_mem_of_all (by decide)
  rcases mdInlineChar_cases c with ⟨-, himage⟩ | ⟨-, himage⟩ | ⟨-, himage⟩ | ⟨-, -, himage⟩
  · rw [himage] at h
    exact absurd (List.mem_singleton.mp h) (hblank d hd)
  · exact absurd h (forall_mem_of_all (hreferences _ himage) d hd)
  · rw [himage] at h
    simpa [hback, eq_comm] using h
  · rw [himage] at h
    exact (List.mem_singleton.mp h).symm

theorem mem_of_mem_escape {d : Char} (hd : d ∈ escapedChars) (hback : d ≠ '\\') {v : Text}
    (h : d ∈ escape v) : d ∈ v := by
  obtain ⟨c, hc, himage⟩ := List.mem_flatMap.mp h
  exact eq_of_mem_mdInlineChar hd hback himage ▸ hc

/-- An escaped value begins with a backslash or with a character that needs none. -/
private theorem head_escape {v : Text} {d : Char} (h : (escape v).head? = some d) :
    d = '\\' ∨ d ∉ escapedChars ∧ d ≠ '<' ∧ d ≠ '>' := by
  have hreferences : ∀ t ∈ references, t.head? = some '&' := by decide
  cases v with
  | nil => cases h
  | cons c v =>
    have hhead : (mdInlineChar c).head? = some d := by
      obtain ⟨e, es, hes⟩ := List.exists_cons_of_ne_nil (mdInlineChar_ne_nil c)
      rw [escape_cons, hes] at h
      rw [hes]
      exact h
    rcases mdInlineChar_cases c with ⟨-, hc⟩ | ⟨-, hc⟩ | ⟨-, hc⟩ | ⟨hc, hother, himage⟩
    · rw [hc] at hhead
      exact .inr (Option.some.inj hhead ▸ by decide)
    · rw [hreferences _ hc] at hhead
      exact .inr (Option.some.inj hhead ▸ by decide)
    · rw [hc] at hhead
      exact .inl (Option.some.inj hhead).symm
    · rw [himage] at hhead
      obtain rfl := Option.some.inj hhead
      simp only [List.mem_cons, not_or] at hother
      exact .inr ⟨hc, hother.2.2.2.1, hother.2.2.2.2.1⟩

/-- No line ends in the value. -/
def OneLine (v : Text) : Prop := ∀ c ∈ v, c ≠ '\n' ∧ c ≠ '\r'

theorem oneLine_oneLine (s : Text) (max : Nat) : OneLine (oneLine s max) := by
  intro c hc
  obtain ⟨d, -, rfl⟩ := List.mem_map.mp hc
  split_ifs with hd
  · decide
  · exact not_or.mp hd

theorem oneLine_escape (v : Text) : OneLine (escape v) := by
  have hreferences : ∀ t ∈ references, t.all (fun c => c ≠ '\n' ∧ c ≠ '\r') = true := by decide
  have hescaped : ∀ c ∈ escapedChars, c ≠ '\n' ∧ c ≠ '\r' := forall_mem_of_all (by decide)
  intro d hd
  obtain ⟨c, -, hc⟩ := List.mem_flatMap.mp hd
  rcases mdInlineChar_cases c with ⟨-, h⟩ | ⟨-, h⟩ | ⟨hmem, h⟩ | ⟨-, hother, h⟩
  · rw [h] at hc
    exact List.mem_singleton.mp hc ▸ by decide
  · exact forall_mem_of_all (hreferences _ h) d hc
  · rw [h] at hc
    rcases List.mem_pair.mp hc with rfl | rfl
    · decide
    · exact hescaped d hmem
  · rw [h] at hc
    obtain rfl := List.mem_singleton.mp hc
    simp only [List.mem_cons, not_or] at hother
    exact ⟨hother.1, hother.2.1⟩

private theorem eq_of_isBlankChar {c : Char} (h : isBlankChar c = true) : c = ' ' ∨ c = '\t' := by
  simpa [isBlankChar] using h

theorem keepsBlanks_escape {v : Text} (h : OneLine v) : KeepsBlanks mdInlineChar v := by
  have hreferences : ∀ t ∈ references,
      t ≠ [] ∧ t.all (fun d => isBlankChar d = false) = true := by decide
  intro c hc
  split_ifs with hblank
  · rcases eq_of_isBlankChar hblank with rfl | rfl <;> decide
  · rcases mdInlineChar_cases c with ⟨hline, -⟩ | ⟨-, himage⟩ | ⟨-, himage⟩ | ⟨-, -, himage⟩
    · exact absurd hline (not_or.mpr (h c hc))
    · exact (hreferences _ himage).imp_right fun h => forall_mem_of_all h
    · rw [himage]
      simpa [isBlankChar] using hblank
    · rw [himage]
      simpa using hblank

theorem trimBlanks_escape {v : Text} (h : OneLine v) :
    trimBlanks (escape v) = escape (trimBlanks v) :=
  trimBlanks_flatMap (keepsBlanks_escape h)

/-- Digits are kept, and what stands behind them is escaped as well. -/
private theorem dropWhile_digits_escape (v : Text) :
    (escape v).dropWhile isAsciiDigit = escape (v.dropWhile isAsciiDigit) := by
  have hreferences : ∀ t ∈ references, t.head? = some '&' := by decide
  have hplain : ∀ c ∈ ['&', '<', '>'], isAsciiDigit c = false := forall_mem_of_all (by decide)
  have hescaped : ∀ c ∈ escapedChars, isAsciiDigit c = false := forall_mem_of_all (by decide)
  induction v with
  | nil => rfl
  | cons c v ih =>
    rw [escape_cons]
    rcases mdInlineChar_cases c with ⟨hline, h⟩ | ⟨hc, h⟩ | ⟨hc, h⟩ | ⟨-, -, h⟩
    · have hdigit : isAsciiDigit c = false := by rcases hline with rfl | rfl <;> rfl
      rw [List.dropWhile_cons_of_neg (by simp [hdigit]), escape_cons, h]
      rfl
    · obtain ⟨ds, hds⟩ := List.head?_eq_some_iff.mp (hreferences _ h)
      rw [List.dropWhile_cons_of_neg (by simp [hplain c hc]), escape_cons, hds]
      rfl
    · rw [List.dropWhile_cons_of_neg (by simp [hescaped c hc]), escape_cons, h]
      rfl
    · cases hdigit : isAsciiDigit c with
      | true => simpa [h, hdigit] using ih
      | false =>
        rw [List.dropWhile_cons_of_neg (by simp [hdigit]), escape_cons, h, List.singleton_append,
          List.dropWhile_cons_of_neg (by simp [hdigit])]

theorem startsBlock_escape (v : Text) : startsBlock (escape v) = false := by
  have hrule : ∀ c ∈ '_' :: blockChars, c ≠ '\\' ∧ (c ∈ escapedChars ∨ c = '<' ∨ c = '>') :=
    forall_mem_of_all (by decide)
  have hmarker : ∀ c ∈ ['.', ')'], c ≠ '\\' ∧ c ∈ escapedChars := forall_mem_of_all (by decide)
  apply startsBlock_eq_false
  · intro c hc hmem
    obtain ⟨hback, hkind⟩ := hrule c hmem
    rcases head_escape hc with h | ⟨h, hless, hgreater⟩
    · exact hback h
    · rcases hkind with hkind | hkind | hkind
      · exact h hkind
      · exact hless hkind
      · exact hgreater hkind
  · intro c hc
    rw [dropWhile_digits_escape] at hc
    have hnot : c ∉ ['.', ')'] := by
      intro hmem
      rcases head_escape hc with h | ⟨h, -, -⟩
      · exact (hmarker c hmem).1 h
      · exact h (hmarker c hmem).2
    simpa using hnot

/-- A value that a code span of one backtick can hold. -/
def Spannable (v : Text) : Prop := v ≠ [] ∧ backtick ∉ v

instance (v : Text) : Decidable (Spannable v) := inferInstanceAs (Decidable (_ ∧ _))

private theorem backtick_mem_escape_iff (v : Text) : backtick ∈ escape v ↔ backtick ∈ v := by
  constructor
  · exact mem_of_mem_escape (by decide) (by decide)
  · intro h
    exact List.mem_flatMap.mpr ⟨backtick, h, by decide⟩

theorem escape_eq_nil_iff (v : Text) : escape v = [] ↔ v = [] := by
  constructor
  · intro h
    cases v with
    | nil => rfl
    | cons c v => exact absurd (List.append_eq_nil_iff.mp h).1 (mdInlineChar_ne_nil c)
  · rintro rfl
    rfl

private theorem head_escape_ne_backtick (v : Text) : (escape v).head? ≠ some backtick := by
  intro h
  rcases head_escape h with h | ⟨h, -, -⟩
  · exact absurd h (by decide)
  · exact h (by decide)

theorem spannable_of_spanContent {v : Text} (h : SpanContent 1 (escape v)) : Spannable v := by
  refine ⟨mt (escape_eq_nil_iff v).mpr h.1, fun hmem => ?_⟩
  obtain ⟨a, b, hv, ha⟩ := List.eq_append_cons_of_mem hmem
  have hescape : escape v = (escape a ++ ['\\']) ++ (List.replicate 1 grave ++ escape b) := by
    have hpair : mdInlineChar backtick = ['\\', backtick] := by decide
    rw [hv, escape_append, escape_cons, hpair, List.append_assoc]
    rfl
  have hfree : grave ∉ escape a ++ ['\\'] := by
    intro hgrave
    rcases List.mem_append.mp hgrave with hgrave | hgrave
    · exact ha ((backtick_mem_escape_iff a).mp hgrave)
    · exact absurd hgrave (by decide)
  have hclosed := contentBefore_closed Nat.one_pos hfree (head_escape_ne_backtick b)
  rw [← hescape, h.2] at hclosed
  cases hclosed

inductive Segment where
  | lit (t : Text)
  | span (v : Text)
  | shown (v : Text)
  deriving DecidableEq

def Segment.source : Segment → Text
  | .lit t => t
  | .span v => backtick :: (escape v ++ [backtick])
  | .shown v => escape v

def Segment.inline : Segment → List Token
  | .lit t => t.map plainToken
  | .span v => [.code 1 (escape v)]
  | .shown v => literal v

def source (segments : List Segment) : Text := segments.flatMap Segment.source

def inline (segments : List Segment) : List Token := segments.flatMap Segment.inline

def spans (segments : List Segment) : List Text :=
  segments.filterMap fun
    | .span v => some v
    | _ => none

/-- A character of the template that is read as itself and does not end a line. -/
def isTemplateChar (c : Char) : Bool :=
  c ≠ '\\' && c ≠ grave && c ≠ '<' && c ≠ '\n' && c ≠ '\r'

private theorem of_isTemplateChar {c : Char} (h : isTemplateChar c = true) :
    (isOrdinary c || isMark c) = true ∧ c ≠ '\n' ∧ c ≠ '\r' := by
  simp only [isTemplateChar, Bool.and_eq_true, decide_eq_true_eq] at h
  obtain ⟨⟨⟨⟨hback, hgrave⟩, hless⟩, hline⟩, hcr⟩ := h
  exact ⟨by cases hmark : isMark c <;> simp [isOrdinary, hback, hgrave, hless, hmark], hline, hcr⟩

/-- Template text is plain, and no value between backticks has a backtick behind it. -/
inductive Laid : List Segment → Prop
  | nil : Laid []
  | lit {t : Text} {segments : List Segment} :
      t.all isTemplateChar = true → Laid segments → Laid (.lit t :: segments)
  | shown {segments : List Segment} (v : Text) : Laid segments → Laid (.shown v :: segments)
  | last (v : Text) : Laid [.span v]
  | span {t : Text} {segments : List Segment} (v : Text) :
      t ≠ [] → t.head? ≠ some backtick → Laid (.lit t :: segments) →
        Laid (.span v :: .lit t :: segments)

private theorem tokens_span {v rest : Text} (h : Spannable v) (hrest : rest.head? ≠ some backtick) :
    tokens tag ((Segment.span v).source ++ rest) = .code 1 (escape v) :: tokens tag rest := by
  have hne : escape v ≠ [] := mt (escape_eq_nil_iff v).mp h.1
  have hgrave : grave ∉ escape v := mt (backtick_mem_escape_iff v).mp h.2
  rw [Segment.source, List.cons_append, List.append_assoc]
  exact tokens_code tag Nat.one_pos hne hgrave hrest

theorem plain_of_template {t : Text} (h : t.all isTemplateChar = true) :
    t.all (fun c => isOrdinary c || isMark c) = true :=
  List.all_eq_true.mpr fun c hc => (of_isTemplateChar (List.all_eq_true.mp h c hc)).1

theorem OneLine.append {v w : Text} (hv : OneLine v) (hw : OneLine w) : OneLine (v ++ w) :=
  List.forall_mem_append.mpr ⟨hv, hw⟩

theorem oneLine_template {t : Text} (h : t.all isTemplateChar = true) : OneLine t :=
  fun c hc => (of_isTemplateChar (List.all_eq_true.mp h c hc)).2

theorem Laid.oneLine_source {segments : List Segment} (h : Laid segments) :
    OneLine (source segments) := by
  have hspan : ∀ v, OneLine (Segment.span v).source := by
    intro v
    have htick : OneLine [backtick] := forall_mem_of_all (by decide)
    exact htick.append ((oneLine_escape v).append htick)
  induction h with
  | nil => exact fun _ hc => absurd hc List.not_mem_nil
  | lit ht _ ih => exact (oneLine_template ht).append ih
  | shown v _ ih => exact (oneLine_escape v).append ih
  | last v => exact (hspan v).append fun _ hc => absurd hc List.not_mem_nil
  | span v _ _ _ ih => exact (hspan v).append ih

/-- When the values between backticks fit into code spans, a line is read as it is laid out. -/
theorem Laid.tokens_source {segments : List Segment} (h : Laid segments)
    (hspans : ∀ v ∈ spans segments, Spannable v) :
    tokens tag (source segments) = inline segments := by
  induction h with
  | nil => rfl
  | lit ht _ ih =>
    have hrest := ih fun v hv => hspans v (by simpa [spans] using hv)
    have hplain := tokens_plain tag (plain_of_template ht)
    exact (hplain _).trans (congrArg _ hrest)
  | shown v _ ih =>
    have hrest := ih fun v hv => hspans v (by simpa [spans] using hv)
    exact (tokens_escape tag v _).trans (congrArg _ hrest)
  | last v =>
    have hv := hspans v (by simp [spans])
    exact tokens_span tag hv (by simp)
  | @span t segments v hne hhead _ ih =>
    have hv := hspans v (by simp [spans])
    have hrest := ih fun v hv => hspans v (by simp [spans] at hv ⊢; exact .inr hv)
    have hbehind : (source (.lit t :: segments)).head? ≠ some backtick := by
      cases t with
      | nil => exact absurd rfl hne
      | cons c t => simpa [source, Segment.source] using hhead
    exact (tokens_span tag hv hbehind).trans (congrArg _ hrest)

end Jitgen.Markdown
