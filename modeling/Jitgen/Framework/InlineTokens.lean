import Jitgen.Framework.CommonMark

/-!
# Inline tokens of CommonMark

A line of text is read from the left. A backslash takes ASCII punctuation literally, except inside
a code span, which runs from a string of backticks to the next string of the same length. Character
references stay as they are written.
-/

namespace Jitgen.CommonMark

open Text

def grave : Char := Char.ofNat 0x60

inductive Token where
  | text (c : Char)
  | code (n : Nat) (content : Text)
  | html (raw : Text)
  | mark (c : Char)
  deriving DecidableEq

/-- ASCII punctuation. -/
def isPunctuation (c : Char) : Bool :=
  let n := c.toNat
  (0x21 ≤ n && n ≤ 0x2F) || (0x3A ≤ n && n ≤ 0x40) || (0x5B ≤ n && n ≤ 0x60) ||
    (0x7B ≤ n && n ≤ 0x7E)

def isMark (c : Char) : Bool := c = '*' || c = '_' || c = '[' || c = ']'

/-- What stands in front of the next string of exactly `n` backticks, when `run` of them were read
last. -/
def contentBefore (n : Nat) : Nat → Text → Option Text
  | run, [] => if run = n then some [] else none
  | run, c :: cs =>
    if c = grave then contentBefore n (run + 1) cs
    else if run = n then some []
    else (contentBefore n 0 cs).map fun content => List.replicate run grave ++ c :: content

/-- The tokens behind the first `skip` characters; `tag` gives the length of the tag or autolink at
the front of a text. -/
def tokensFrom (tag : Text → Option Nat) : Nat → Text → List Token
  | _, [] => []
  | skip + 1, _ :: cs => tokensFrom tag skip cs
  | 0, c :: cs =>
    if c = '\\' then
      if cs.head?.any isPunctuation then .text (cs.headD c) :: tokensFrom tag 1 cs
      else .text c :: tokensFrom tag 0 cs
    else if c = grave then
      let n := runLength grave (c :: cs)
      match contentBefore n 0 (cs.drop (n - 1)) with
      | some content => .code n content :: tokensFrom tag (2 * n + content.length - 1) cs
      | none => List.replicate n (.text c) ++ tokensFrom tag (n - 1) cs
    else if c = '<' then
      match tag (c :: cs) with
      | some n => .html ((c :: cs).take n) :: tokensFrom tag (n - 1) cs
      | none => .text c :: tokensFrom tag 0 cs
    else if isMark c then .mark c :: tokensFrom tag 0 cs
    else .text c :: tokensFrom tag 0 cs

def tokens (tag : Text → Option Nat) (s : Text) : List Token := tokensFrom tag 0 s

example : tokens (fun _ => none) [grave, 'a', '\\', grave, 'b', grave, grave, '\\', '*'] =
    [.code 1 ['a', '\\'], .text 'b', .text grave, .text grave, .text '*'] := by decide +kernel

section

variable (tag : Text → Option Nat)

theorem tokensFrom_append (s t : Text) : tokensFrom tag s.length (s ++ t) = tokens tag t := by
  induction s with
  | nil => rfl
  | cons c s ih => exact ih

/-- A character that means nothing in a line of text. -/
def isOrdinary (c : Char) : Bool := c ≠ '\\' && c ≠ grave && c ≠ '<' && !isMark c

theorem tokens_ordinary {c : Char} (hc : isOrdinary c = true) (cs : Text) :
    tokens tag (c :: cs) = .text c :: tokens tag cs := by
  simp only [isOrdinary, ne_eq, Bool.and_eq_true, decide_eq_true_eq, Bool.not_eq_true'] at hc
  rw [tokens, tokensFrom, if_neg hc.1.1.1, if_neg hc.1.1.2, if_neg hc.1.2, if_neg (by simp [hc.2])]
  rfl

theorem tokens_mark {c : Char} (hc : isMark c = true) (cs : Text) :
    tokens tag (c :: cs) = .mark c :: tokens tag cs := by
  have hplain : c ≠ '\\' ∧ c ≠ grave ∧ c ≠ '<' := by
    refine ⟨?_, ?_, ?_⟩ <;> rintro rfl <;> exact absurd hc (by decide)
  rw [tokens, tokensFrom, if_neg hplain.1, if_neg hplain.2.1, if_neg hplain.2.2, if_pos hc]
  rfl

def plainToken (c : Char) : Token := if isMark c then .mark c else .text c

theorem tokens_plain {s : Text} (hs : s.all (fun c => isOrdinary c || isMark c) = true)
    (rest : Text) : tokens tag (s ++ rest) = s.map plainToken ++ tokens tag rest := by
  induction s with
  | nil => rfl
  | cons c s ih =>
    rw [List.all_cons, Bool.and_eq_true, Bool.or_eq_true] at hs
    rw [List.cons_append, List.map_cons, List.cons_append, ← ih hs.2, plainToken]
    cases hmark : isMark c with
    | true => exact tokens_mark tag hmark _
    | false => exact tokens_ordinary tag (hs.1.resolve_right (by simp [hmark])) _

theorem tokens_escaped {c : Char} (hc : isPunctuation c = true) (cs : Text) :
    tokens tag ('\\' :: c :: cs) = .text c :: tokens tag cs := by
  rw [tokens, tokensFrom, if_pos rfl, if_pos (by simpa using hc)]
  rfl

end

theorem contentBefore_graves (n run k : Nat) (s : Text) :
    contentBefore n run (List.replicate k grave ++ s) = contentBefore n (run + k) s := by
  induction k generalizing run with
  | zero => rfl
  | succ k ih =>
    rw [List.replicate_succ, List.cons_append, contentBefore, if_pos rfl, ih]
    congr 1
    omega

theorem contentBefore_other {n run : Nat} (hrun : run ≠ n) {c : Char} (hc : c ≠ grave) (cs : Text) :
    contentBefore n run (c :: cs) =
      (contentBefore n 0 cs).map fun content => List.replicate run grave ++ c :: content := by
  rw [contentBefore, if_neg hc, if_neg hrun]

theorem contentBefore_closed {n : Nat} (hn : 0 < n) {content rest : Text} (h : grave ∉ content)
    (hrest : rest.head? ≠ some grave) :
    contentBefore n 0 (content ++ (List.replicate n grave ++ rest)) = some content := by
  induction content with
  | nil =>
    rw [List.nil_append, contentBefore_graves, Nat.zero_add]
    cases rest with
    | nil => rw [contentBefore, if_pos rfl]
    | cons c rest => rw [contentBefore, if_neg (by simpa using hrest), if_pos rfl]
  | cons c content ih =>
    rw [List.mem_cons, not_or] at h
    rw [List.cons_append, contentBefore_other hn.ne (Ne.symm h.1), ih h.2]
    rfl

theorem runLength_replicate {c : Char} {s : Text} (hs : s.head? ≠ some c) (n : Nat) :
    runLength c (List.replicate n c ++ s) = n := by
  have htail : s.takeWhile (· = c) = [] := by
    cases s with
    | nil => rfl
    | cons d s => exact List.takeWhile_cons_of_neg (by simpa using hs)
  rw [runLength, List.takeWhile_append_of_pos (by simp), htail]
  simp

/-- Text without backticks between two strings of `n` of them is one code span. -/
theorem tokens_code (tag : Text → Option Nat) {n : Nat} (hn : 0 < n) {content rest : Text}
    (hne : content ≠ []) (h : grave ∉ content) (hrest : rest.head? ≠ some grave) :
    tokens tag (List.replicate n grave ++ (content ++ (List.replicate n grave ++ rest))) =
      .code n content :: tokens tag rest := by
  obtain ⟨m, rfl⟩ : ∃ m, n = m + 1 := ⟨n - 1, by omega⟩
  have hhead : (content ++ (List.replicate (m + 1) grave ++ rest)).head? ≠ some grave := by
    cases content with
    | nil => exact absurd rfl hne
    | cons c content => exact fun heq => h (by simp_all)
  have hrun := runLength_replicate hhead (m + 1)
  have hdrop : (List.replicate m grave ++
      (content ++ (List.replicate (m + 1) grave ++ rest))).drop (m + 1 - 1) =
        content ++ (List.replicate (m + 1) grave ++ rest) := by
    simp
  have hskip := tokensFrom_append tag
    (List.replicate m grave ++ content ++ List.replicate (m + 1) grave) rest
  have hlength : (List.replicate m grave ++ content ++ List.replicate (m + 1) grave).length =
      2 * (m + 1) + content.length - 1 := by
    simp
    omega
  have hopen : ∀ t, List.replicate (m + 1) grave ++ t = grave :: (List.replicate m grave ++ t) :=
    fun _ => rfl
  rw [hopen (content ++ _)] at hrun ⊢
  rw [tokens, tokensFrom, if_neg (by decide), if_pos rfl]
  simp only [hrun, hdrop, contentBefore_closed hn h hrest]
  rw [hlength, List.append_assoc, List.append_assoc] at hskip
  rw [hskip]

/-- What a code span of `n` backticks can hold. -/
def SpanContent (n : Nat) (content : Text) : Prop :=
  content ≠ [] ∧ contentBefore n 0 content = none

theorem contentBefore_content {n run : Nat} (hn : 0 < n) {s content : Text}
    (h : contentBefore n run s = some content) (hne : content ≠ []) :
    contentBefore n 0 content = none := by
  induction s generalizing run content with
  | nil =>
    rw [contentBefore] at h
    split_ifs at h
    exact absurd (Option.some.inj h).symm hne
  | cons c cs ih =>
    rw [contentBefore] at h
    split_ifs at h with hc hrun
    · exact ih h hne
    · exact absurd (Option.some.inj h).symm hne
    · obtain ⟨rest, hrest, rfl⟩ := Option.map_eq_some_iff.mp h
      have hnone : contentBefore n 0 rest = none := by
        by_cases hnil : rest = []
        · rw [hnil, contentBefore, if_neg hn.ne]
        · exact ih hrest hnil
      rw [contentBefore_graves, Nat.zero_add, contentBefore_other hrun hc, hnone]
      rfl

theorem contentBefore_ne_nil {n : Nat} (hn : 0 < n) {s content : Text}
    (hs : s.head? ≠ some grave) (h : contentBefore n 0 s = some content) : content ≠ [] := by
  cases s with
  | nil =>
    rw [contentBefore, if_neg hn.ne] at h
    cases h
  | cons c s =>
    rw [contentBefore_other hn.ne (by simpa using hs)] at h
    obtain ⟨rest, -, rfl⟩ := Option.map_eq_some_iff.mp h
    simp

theorem head_drop_runLength (s : Text) : (s.drop (runLength grave s)).head? ≠ some grave := by
  have hdrop : s.drop (runLength grave s) = s.dropWhile (· = grave) := by
    induction s with
    | nil => rfl
    | cons c s ih =>
      by_cases hc : c = grave
      · simpa [runLength, hc] using ih
      · simp [runLength, hc]
  rw [hdrop]
  intro h
  have := List.head?_dropWhile_not (· = grave) s
  simp_all

/-- Every code span was closed by the next string of its length. -/
theorem spanContent_of_mem_tokensFrom {tag : Text → Option Nat} {skip n : Nat} {s content : Text}
    (h : .code n content ∈ tokensFrom tag skip s) : SpanContent n content := by
  induction s generalizing skip with
  | nil => simp [tokensFrom] at h
  | cons c cs ih =>
    cases skip with
    | succ skip => exact ih h
    | zero =>
      rw [tokensFrom] at h
      split_ifs at h with hback hpunct hgrave htag hmark
      · exact ih (by simpa using h)
      · exact ih (by simpa using h)
      · have hpos : 0 < runLength grave (c :: cs) := by simp [runLength, hgrave]
        have hhead := head_drop_runLength (c :: cs)
        obtain ⟨m, hm⟩ : ∃ m, runLength grave (c :: cs) = m + 1 :=
          ⟨runLength grave (c :: cs) - 1, by omega⟩
        simp only [hm, Nat.add_sub_cancel, List.drop_succ_cons] at h hhead
        cases hclose : contentBefore (m + 1) 0 (cs.drop m) with
        | none =>
          simp only [hclose, List.mem_append, List.mem_replicate] at h
          rcases h with h | h
          · exact absurd h.2 (by simp)
          · exact ih h
        | some inner =>
          simp only [hclose, List.mem_cons] at h
          rcases h with h | h
          · obtain ⟨rfl, rfl⟩ := Token.code.inj h
            have hne := contentBefore_ne_nil (by omega) hhead hclose
            exact ⟨hne, contentBefore_content (by omega) hclose hne⟩
          · exact ih h
      · cases hlen : tag (c :: cs) with
        | none => exact ih (by simpa [hlen] using h)
        | some len => exact ih (by simpa [hlen] using h)
      · exact ih (by simpa using h)
      · exact ih (by simpa using h)

end Jitgen.CommonMark
