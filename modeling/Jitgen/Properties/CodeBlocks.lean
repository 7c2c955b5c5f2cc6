import Jitgen.Framework.CommonMark
import Jitgen.Framework.Markers
import Jitgen.Report.Markdown

/-!
# Code blocks of the Markdown export

No run of fence characters is left in the body of a code block, so that the block is closed by the
fence the exporter writes behind it.
-/

namespace Jitgen

open Text

section

variable {c : Char} {n : Nat}

private theorem notMem_flushRun {ch : Char} (hch : c ≠ ch) (hspace : c ≠ zeroWidthSpace) :
    c ∉ flushRun n ch := by
  unfold flushRun
  split_ifs
  · simp [hch, hspace]
  · simp [hch]

private theorem run_append_cons {a : Char} (ha : a ≠ c) (x y : Text) :
    List.replicate 3 c <:+: x ++ a :: y ↔
      List.replicate 3 c <:+: x ∨ List.replicate 3 c <:+: y := by
  apply infix_append_cons
  simp [ha]

private theorem run_of_append {p s : Text} (hp : c ∉ p) (h : List.replicate 3 c <:+: p ++ s) :
    List.replicate 3 c <:+: s := by
  induction p with
  | nil => exact h
  | cons a p ih =>
    have ha : c ≠ a := fun heq => hp (heq ▸ List.mem_cons_self)
    have hrest : List.replicate 3 c <:+: p ++ s := infix_of_cons (by simpa using ha) h
    exact ih (fun hmem => hp (List.mem_cons_of_mem a hmem)) hrest

private theorem run_of_append_head {a : Char} (ha : a ≠ c) {x y : Text} (hy : ∃ rest, y = a :: rest)
    (h : List.replicate 3 c <:+: x ++ y) :
    List.replicate 3 c <:+: x ∨ List.replicate 3 c <:+: y := by
  have ⟨rest, hrest⟩ := hy
  rw [hrest, run_append_cons ha] at h
  rw [hrest]
  exact h.imp_right fun hrun => hrun.trans (List.suffix_cons _ _).isInfix

private theorem flushRun_free (hspace : zeroWidthSpace ≠ c) (n : Nat) (ch : Char) :
    ¬ List.replicate 3 c <:+: flushRun n ch := by
  unfold flushRun
  split_ifs with hn
  · clear hn
    induction n with
    | zero => simp
    | succ n ih =>
      intro h
      have hpair : (List.replicate (n + 1) [ch, zeroWidthSpace]).flatten =
          [ch] ++ zeroWidthSpace :: (List.replicate n [ch, zeroWidthSpace]).flatten := rfl
      rw [hpair, run_append_cons hspace] at h
      cases h with
      | inl h => exact absurd h.length_le (by simp)
      | inr h => exact ih h
  · intro h
    have := h.length_le
    simp only [List.length_replicate] at this
    omega

private theorem filter_flushRun {ch : Char} (hch : ch ≠ zeroWidthSpace) (n : Nat) :
    (flushRun n ch).filter (· ≠ zeroWidthSpace) = List.replicate n ch := by
  unfold flushRun
  split_ifs with hn
  · clear hn
    induction n with
    | zero => rfl
    | succ n ih =>
      rw [List.replicate_succ, List.flatten_cons, List.filter_append, ih]
      simp [hch, List.replicate_succ]
  · simp [hch]

end

@[simp] theorem flushRun_zero (ch : Char) : flushRun 0 ch = [] := rfl

private theorem flushRun_succ (n : Nat) (ch : Char) : ∃ rest, flushRun (n + 1) ch = ch :: rest := by
  unfold flushRun
  split_ifs
  · exact ⟨_, rfl⟩
  · exact ⟨_, rfl⟩

private theorem breakRuns_backticks (b : Nat) (s : Text) :
    ∃ rest, breakRuns (b + 1) 0 s = backtick :: rest := by
  induction s generalizing b with
  | nil =>
    have ⟨run, hrun⟩ := flushRun_succ b backtick
    exact ⟨run ++ [], by rw [breakRuns, hrun]; rfl⟩
  | cons c cs ih =>
    have ⟨run, hrun⟩ := flushRun_succ b backtick
    rw [breakRuns]
    split_ifs
    · exact ih (b + 1)
    · exact ⟨run ++ _, by rw [hrun]; rfl⟩
    · exact ⟨run ++ _, by rw [hrun, flushRun_zero, List.append_nil]; rfl⟩

private theorem breakRuns_tildes (t : Nat) (s : Text) :
    ∃ rest, breakRuns 0 (t + 1) s = '~' :: rest := by
  induction s generalizing t with
  | nil =>
    have ⟨run, hrun⟩ := flushRun_succ t '~'
    exact ⟨run, by rw [breakRuns, hrun]; rfl⟩
  | cons c cs ih =>
    have ⟨run, hrun⟩ := flushRun_succ t '~'
    rw [breakRuns]
    split_ifs
    · exact ⟨run ++ _, by rw [hrun]; rfl⟩
    · exact ih (t + 1)
    · exact ⟨run ++ _, by rw [hrun, flushRun_zero, List.nil_append]; rfl⟩

/-- At most one of the two runs is held back. -/
def OneRun (b t : Nat) : Prop := b = 0 ∨ t = 0

private theorem flushRuns_free {c : Char} (hspace : zeroWidthSpace ≠ c) {b t : Nat}
    (h : OneRun b t) :
    ¬ List.replicate 3 c <:+: flushRun b backtick ++ flushRun t '~' := by
  cases h with
  | inl hb =>
    rw [hb, flushRun_zero, List.nil_append]
    exact flushRun_free hspace t '~'
  | inr ht =>
    rw [ht, flushRun_zero, List.append_nil]
    exact flushRun_free hspace b backtick

private theorem breakRuns_no_backticks {b t : Nat} (h : OneRun b t) (s : Text) :
    ¬ List.replicate 3 backtick <:+: breakRuns b t s := by
  have hspace : zeroWidthSpace ≠ backtick := by decide
  induction s generalizing b t with
  | nil => exact flushRuns_free hspace h
  | cons c cs ih =>
    intro hrun
    rw [breakRuns] at hrun
    split_ifs at hrun with hback htilde
    · have htildes : backtick ∉ flushRun t '~' := notMem_flushRun (by decide) (by decide)
      exact ih (.inr rfl) (run_of_append htildes hrun)
    · cases run_of_append_head (by decide) (breakRuns_tildes t cs) hrun with
      | inl hrun => exact flushRun_free hspace b backtick hrun
      | inr hrun => exact ih (.inl rfl) hrun
    · rw [run_append_cons hback] at hrun
      cases hrun with
      | inl hrun => exact flushRuns_free hspace h hrun
      | inr hrun => exact ih (.inl rfl) hrun

private theorem breakRuns_no_tildes {b t : Nat} (h : OneRun b t) (s : Text) :
    ¬ List.replicate 3 '~' <:+: breakRuns b t s := by
  have hspace : zeroWidthSpace ≠ '~' := by decide
  induction s generalizing b t with
  | nil => exact flushRuns_free hspace h
  | cons c cs ih =>
    intro hrun
    rw [breakRuns] at hrun
    split_ifs at hrun with hback htilde
    · cases run_of_append_head (by decide) (breakRuns_backticks b cs) hrun with
      | inl hrun => exact flushRun_free hspace t '~' hrun
      | inr hrun => exact ih (.inr rfl) hrun
    · have hbackticks : '~' ∉ flushRun b backtick := notMem_flushRun (by decide) (by decide)
      exact ih (.inl rfl) (run_of_append hbackticks hrun)
    · rw [run_append_cons htilde] at hrun
      cases hrun with
      | inl hrun => exact flushRuns_free hspace h hrun
      | inr hrun => exact ih (.inl rfl) hrun

/-- Without its zero-width spaces the output is the pending run and the text behind it. -/
private theorem filter_breakRuns {b t : Nat} (h : OneRun b t) {s : Text} (hs : zeroWidthSpace ∉ s) :
    (breakRuns b t s).filter (· ≠ zeroWidthSpace) =
      List.replicate b backtick ++ List.replicate t '~' ++ s := by
  have hback : ∀ n, (flushRun n backtick).filter (· ≠ zeroWidthSpace) =
      List.replicate n backtick := filter_flushRun (by decide)
  have htilde : ∀ n, (flushRun n '~').filter (· ≠ zeroWidthSpace) =
      List.replicate n '~' := filter_flushRun (by decide)
  induction s generalizing b t with
  | nil => rw [breakRuns, List.filter_append, hback, htilde, List.append_nil]
  | cons c cs ih =>
    have hc : c ≠ zeroWidthSpace := fun heq => hs (heq ▸ List.mem_cons_self)
    have hcs : zeroWidthSpace ∉ cs := fun hmem => hs (List.mem_cons_of_mem c hmem)
    rw [breakRuns]
    split_ifs with hcb hct
    · rw [List.filter_append, htilde, ih (.inr rfl) hcs, hcb]
      cases h with
      | inl hb => simp [hb]
      | inr ht => simp [ht, List.replicate_succ', List.append_assoc]
    · rw [List.filter_append, hback, ih (.inl rfl) hcs, hct]
      simp [List.replicate_succ', List.append_assoc]
    · rw [List.filter_append, List.filter_append, hback, htilde, List.filter_cons_of_pos (by simpa),
        ih (.inl rfl) hcs]
      rfl

private theorem mem_flushRun {n : Nat} {ch c : Char} (h : c ∈ flushRun n ch) :
    c = ch ∨ c = zeroWidthSpace := by
  by_contra hc
  rw [not_or] at hc
  exact notMem_flushRun hc.1 hc.2 h

private theorem mem_breakRuns {b t : Nat} {s : Text} {c : Char} (h : c ∈ breakRuns b t s) :
    c ∈ s ∨ c = backtick ∨ c = '~' ∨ c = zeroWidthSpace := by
  have hback : ∀ {n}, c ∈ flushRun n backtick → c = backtick ∨ c = '~' ∨ c = zeroWidthSpace :=
    fun h => (mem_flushRun h).imp_right .inr
  have htilde : ∀ {n}, c ∈ flushRun n '~' → c = backtick ∨ c = '~' ∨ c = zeroWidthSpace :=
    fun h => .inr (mem_flushRun h)
  induction s generalizing b t with
  | nil =>
    rw [breakRuns, List.mem_append] at h
    exact .inr (h.elim hback htilde)
  | cons d s ih =>
    rw [breakRuns] at h
    split_ifs at h
    · rcases List.mem_append.mp h with h | h
      · exact .inr (htilde h)
      · exact (ih h).imp_left (List.mem_cons_of_mem d)
    · rcases List.mem_append.mp h with h | h
      · exact .inr (hback h)
      · exact (ih h).imp_left (List.mem_cons_of_mem d)
    · rw [List.mem_append, List.mem_append, List.mem_cons] at h
      rcases h with (h | h) | h | h
      · exact .inr (hback h)
      · exact .inr (htilde h)
      · exact .inl (h ▸ List.mem_cons_self)
      · exact (ih h).imp_left (List.mem_cons_of_mem d)

private theorem cr_notMem_mdCodeBlock (s : Text) (max : Nat) : '\r' ∉ mdCodeBlock s max := by
  intro h
  rcases mem_breakRuns h with h | h | h | h
  · exact absurd (of_mem_sanitize h).2 (by decide)
  all_goals exact absurd h (by decide)

private theorem zeroWidthSpace_notMem_sanitize (s : Text) (max : Nat) :
    zeroWidthSpace ∉ sanitize s max := by
  intro h
  exact absurd (of_mem_sanitize h).2 (by decide)

/-- A character of an info string. -/
def SlugChar (c : Char) : Prop := isAsciiAlphanumeric c = true ∨ c = '_' ∨ c = '+' ∨ c = '-'

instance (c : Char) : Decidable (SlugChar c) := inferInstanceAs (Decidable (_ ∨ _))

private theorem slugChar_of_mem_langSlug {language : Text} {c : Char} (h : c ∈ langSlug language) :
    SlugChar c := by
  have hkept := (List.mem_filter.mp (List.mem_of_mem_take h)).2
  simpa [SlugChar, or_assoc] using hkept

/-- The opening line of the block. -/
def codeFenceLine (language : Text) : Text := "~~~" ++ langSlug language

def codeFenceOf (language : Text) : CommonMark.Fence := ⟨'~', 3, 0, langSlug language⟩

/-- The lines the exporter writes for a code block. -/
def codeFenceLines (language source : Text) : List Text :=
  codeFenceLine language :: CommonMark.lines (mdCodeBlock source capSource) ++ [("~~~" : Text), []]

private theorem terminated_append_newline_append (s body : Text) :
    Terminated (s ++ '\n' :: body) ↔ Terminated body ∨ body = [] := by
  cases body with
  | nil => simp [Terminated]
  | cons c body =>
    have hlast : (s ++ '\n' :: c :: body).getLast? = (c :: body).getLast? := by
      rw [List.getLast?_append_of_ne_nil _ (by simp), List.getLast?_cons_cons]
    simp [Terminated, hlast]

theorem codeFence_eq (s language source : Text) :
    codeFence s language source = s ++ unlines (codeFenceLines language source) := by
  have hhead : s ++ "~~~" ++ langSlug language ++ "\n" ++ mdCodeBlock source capSource =
      (s ++ codeFenceLine language) ++ '\n' :: mdCodeBlock source capSource := by
    simp [codeFenceLine]
  have hbody := CommonMark.unlines_lines (cr_notMem_mdCodeBlock source capSource)
  have hend : ("~~~\n\n" : Text) = unlines [("~~~" : Text), []] := by decide
  rw [codeFence]
  simp only [hhead, endsWith_newline, terminated_append_newline_append]
  rw [codeFenceLines, unlines_append, unlines_cons, hbody, hend]
  split_ifs <;> simp

private theorem unindented_codeFenceLine (language : Text) :
    CommonMark.unindented (codeFenceLine language) = codeFenceLine language := rfl

private theorem cr_notMem_codeFenceLine (language : Text) : '\r' ∉ codeFenceLine language := by
  intro h
  rcases List.mem_append.mp h with h | h
  · exact absurd h (by decide)
  · exact absurd (slugChar_of_mem_langSlug h) (by decide)

private theorem newline_notMem_codeFenceLine (language : Text) : '\n' ∉ codeFenceLine language := by
  intro h
  rcases List.mem_append.mp h with h | h
  · exact absurd h (by decide)
  · exact absurd (slugChar_of_mem_langSlug h) (by decide)

private theorem takeWhile_codeFenceLine (language : Text) :
    (codeFenceLine language).takeWhile (· = '~') = ['~', '~', '~'] := by
  have hslug : (langSlug language).takeWhile (· = '~') = [] := by
    apply List.takeWhile_eq_nil_iff.mpr
    intro hlen htilde
    have hmem : (langSlug language).get ⟨0, hlen⟩ ∈ langSlug language := List.get_mem _ _
    rw [of_decide_eq_true htilde] at hmem
    exact absurd (slugChar_of_mem_langSlug hmem) (by decide)
  show '~' :: '~' :: '~' :: (langSlug language).takeWhile (· = '~') = _
  rw [hslug]

private theorem trim_langSlug (language : Text) :
    ((langSlug language).dropWhile CommonMark.isBlankChar).rdropWhile CommonMark.isBlankChar =
      langSlug language := by
  have hblank : ∀ c ∈ langSlug language, CommonMark.isBlankChar c = false := by
    intro c hc
    have hslug := slugChar_of_mem_langSlug hc
    by_contra h
    simp only [CommonMark.isBlankChar, Bool.or_eq_false_iff, decide_eq_false_iff_not, not_and_or,
      not_not] at h
    rcases h with rfl | rfl
    · exact absurd hslug (by decide)
    · exact absurd hslug (by decide)
  have hstart : (langSlug language).dropWhile CommonMark.isBlankChar = langSlug language := by
    cases hl : langSlug language with
    | nil => rfl
    | cons c cs => rw [List.dropWhile_cons, hblank c (hl ▸ List.mem_cons_self)]; rfl
  rw [hstart]
  apply List.rdropWhile_eq_self_iff.mpr
  intro hne hlast
  rw [hblank _ (List.getLast_mem hne)] at hlast
  exact absurd hlast (by simp)

theorem opening_codeFenceLine (language : Text) :
    CommonMark.opening (codeFenceLine language) = some (codeFenceOf language) := by
  have hrun : CommonMark.runLength '~' (codeFenceLine language) = 3 := by
    rw [CommonMark.runLength, takeWhile_codeFenceLine]
    rfl
  have hinfo : (codeFenceLine language).drop 3 = langSlug language := rfl
  have hhead : (codeFenceLine language).head? = some '~' := rfl
  have hindent : CommonMark.indent (codeFenceLine language) = 0 := rfl
  rw [CommonMark.opening, unindented_codeFenceLine, hhead, Option.bind_some]
  dsimp only
  rw [hrun, hinfo, trim_langSlug, hindent, if_pos (by simp)]
  rfl

theorem not_closes_body {language source l : Text} {max : Nat}
    (hl : l ∈ CommonMark.lines (mdCodeBlock source max)) :
    ¬ CommonMark.Closes (codeFenceOf language) l := by
  intro hclose
  have hrun := CommonMark.replicate_infix_of_closes hclose
  have hline := (CommonMark.mem_of_mem_lines (cr_notMem_mdCodeBlock source max) hl).2
  exact breakRuns_no_tildes (.inl rfl) _ (hrun.trans hline)

theorem closes_fence (language : Text) : CommonMark.Closes (codeFenceOf language) "~~~" := by
  have hlength : CommonMark.runLength '~' (CommonMark.unindented "~~~") = 3 := by decide
  have hrest : ((CommonMark.unindented "~~~").drop 3).all CommonMark.isBlankChar = true := by decide
  exact ⟨by decide, hlength.ge, hlength ▸ hrest⟩

theorem unended_codeFenceLines {language source l : Text}
    (hl : l ∈ codeFenceLines language source) : '\n' ∉ l ∧ '\r' ∉ l := by
  have hbody := cr_notMem_mdCodeBlock source capSource
  rcases List.mem_append.mp hl with hl | hl
  · cases hl with
    | head => exact ⟨newline_notMem_codeFenceLine language, cr_notMem_codeFenceLine language⟩
    | tail _ hl =>
      have hline := CommonMark.mem_of_mem_lines hbody hl
      exact ⟨hline.1, fun hmem => hbody (hline.2.mem hmem)⟩
  · have hlast : ∀ k ∈ [("~~~" : Text), []], '\n' ∉ k ∧ '\r' ∉ k := by decide
    exact hlast l hl

private theorem codeFence_lines (language source : Text) :
    CommonMark.lines (unlines (codeFenceLines language source)) =
      codeFenceLines language source :=
  CommonMark.lines_unlines_unended fun _ => unended_codeFenceLines

private theorem blocks_codeFence (language source : Text) :
    CommonMark.blocks (unlines (codeFenceLines language source)) =
      [.fenced (codeFenceOf language) (CommonMark.lines (mdCodeBlock source capSource)) true,
        .line []] := by
  have hcontent : (CommonMark.lines (mdCodeBlock source capSource)).map
      (CommonMark.contentLine (codeFenceOf language)) =
      CommonMark.lines (mdCodeBlock source capSource) := by
    apply List.map_id''
    exact CommonMark.contentLine_of_indent_zero rfl
  have hbody : ∀ l ∈ CommonMark.lines (mdCodeBlock source capSource),
      ¬ CommonMark.Closes (codeFenceOf language) l := fun _ => not_closes_body
  have hread := CommonMark.blocksFrom_content hbody [] "~~~" (closes_fence language) [[]]
  rw [CommonMark.blocks, codeFence_lines, codeFenceLines, List.cons_append,
    CommonMark.blocksFrom, opening_codeFenceLine]
  refine hread.trans ?_
  rw [hcontent]
  rfl

/-- Every code block of the Markdown export is one fenced block, whatever language and source. -/
theorem code_block_containment (language source : Text) :
    (∀ max, ¬ List.replicate 3 backtick <:+: mdCodeBlock source max ∧
      ¬ List.replicate 3 '~' <:+: mdCodeBlock source max ∧
      (mdCodeBlock source max).filter (· ≠ zeroWidthSpace) = sanitize source max) ∧
    (∀ c ∈ langSlug language, SlugChar c) ∧
    (∀ l ∈ CommonMark.lines (mdCodeBlock source capSource),
      ¬ CommonMark.Closes (codeFenceOf language) l) ∧
    CommonMark.blocks (codeFence [] language source) =
      [.fenced (codeFenceOf language) (CommonMark.lines (mdCodeBlock source capSource)) true,
        .line []] ∧
    ∀ s, codeFence s language source = s ++ codeFence [] language source := by
  have hblock := codeFence_eq [] language source
  refine ⟨fun max => ⟨?_, ?_, ?_⟩, fun c => slugChar_of_mem_langSlug, fun l => not_closes_body,
    ?_, fun s => ?_⟩
  · exact breakRuns_no_backticks (.inl rfl) _
  · exact breakRuns_no_tildes (.inl rfl) _
  · exact filter_breakRuns (.inl rfl) (zeroWidthSpace_notMem_sanitize source max)
  · rw [hblock]
    exact blocks_codeFence language source
  · rw [codeFence_eq, hblock]
    rfl

end Jitgen
