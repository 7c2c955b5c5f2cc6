import Mathlib.Data.List.Forall2
import Jitgen.Framework.Lines

/-!
# Cut and trimmed texts

What the lines of a text lose when the text is cut somewhere or trimmed at its end.
-/

namespace Jitgen

namespace Text

theorem trimEnd_eq_self_iff (s : Text) :
    trimEnd s = s ↔ ∀ c, s.getLast? = some c → isWhitespace c = false := by
  rw [trimEnd, List.rdropWhile_eq_self_iff]
  constructor
  · intro h c hc
    have hne : s ≠ [] := by
      rintro rfl
      simp at hc
    rw [List.getLast?_eq_some_getLast hne] at hc
    have := h hne
    simp_all
  · intro h hne
    simpa using h _ (List.getLast?_eq_some_getLast hne)

theorem trimEnd_append (s t : Text) :
    trimEnd (s ++ t) = if isBlank t then trimEnd s else s ++ trimEnd t := by
  have hblank : (t.reverse.dropWhile isWhitespace).isEmpty = isBlank t := by
    rw [Bool.eq_iff_iff]
    simp [isBlank, List.dropWhile_eq_nil_iff]
  unfold trimEnd List.rdropWhile
  rw [List.reverse_append, List.dropWhile_append, hblank]
  by_cases ht : isBlank t
  · rw [if_pos ht, if_pos ht]
  · rw [if_neg ht, if_neg ht]
    simp

theorem trimEnd_of_blank {s : Text} (h : isBlank s) : trimEnd s = [] := by
  have := trimEnd_append [] s
  rw [if_pos h] at this
  simpa [trimEnd] using this

theorem trimmed_iff (s : Text) : trim s = s ↔ trimStart s = s ∧ trimEnd s = s := by
  constructor
  · intro h
    have hend : (trim s).length ≤ (trimStart s).length :=
      (List.rdropWhile_prefix isWhitespace _).length_le
    have hstart : trimStart s <:+ s := List.dropWhile_suffix isWhitespace
    rw [h] at hend
    have heq : trimStart s = s := hstart.eq_of_length_le hend
    refine ⟨heq, ?_⟩
    rw [trim, heq] at h
    exact h
  · intro h
    rw [trim, h.1, h.2]

theorem all_dropWhile {α : Type} (p : α → Bool) (l : List α) : (l.dropWhile p).all p = l.all p := by
  induction l with
  | nil => rfl
  | cons a l ih =>
    rw [List.dropWhile_cons]
    by_cases ha : p a
    · simp only [ha, if_true, List.all_cons, Bool.true_and, ih]
    · simp [ha]

theorem isBlank_trimEnd (s : Text) : isBlank (trimEnd s) = isBlank s := by
  unfold isBlank trimEnd List.rdropWhile
  rw [List.all_reverse, all_dropWhile, List.all_reverse]

theorem isBlank_stripCr (s : Text) : isBlank (stripCr s) = isBlank s := by
  unfold stripCr
  by_cases hcr : s.getLast? = some '\r'
  · obtain ⟨t, rfl⟩ := List.getLast?_eq_some_iff.mp hcr
    have hblank : isWhitespace '\r' = true := by decide
    simp [isBlank, hblank]
  · rw [if_neg hcr]

theorem isBlank_linesGo (acc s : Text) :
    (linesGo acc s).all isBlank = (isBlank acc && isBlank s) := by
  induction s generalizing acc with
  | nil =>
    rw [linesGo]
    by_cases hacc : acc = []
    · simp [hacc, isBlank]
    · simp [hacc, isBlank]
  | cons c s ih =>
    rw [linesGo]
    by_cases hc : c = '\n'
    · have hblank : isWhitespace '\n' = true := by decide
      rw [if_pos hc, List.all_cons, isBlank_stripCr, ih]
      simp [isBlank, hc, hblank]
    · rw [if_neg hc, ih]
      simp [isBlank, Bool.and_assoc]

theorem isBlank_join (ls : List Text) : isBlank (join "\n" ls) = ls.all isBlank := by
  induction ls using List.reverseRecOn with
  | nil => rfl
  | append_singleton ls l ih =>
    have hblank : isWhitespace '\n' = true := by decide
    by_cases hls : ls = []
    · simp [hls, join]
    · rw [join_concat hls, List.all_append, ← ih]
      simp [isBlank, hblank]

theorem isBlank_join_lines (s : Text) : isBlank (join "\n" (lines s)) = isBlank s := by
  rw [isBlank_join, lines, isBlank_linesGo]
  rfl

theorem linesGo_tail {acc s : Text} (hs : '\n' ∉ s) :
    linesGo acc s = if acc ++ s = [] then [] else [acc ++ s] := by
  induction s generalizing acc with
  | nil => simp [linesGo]
  | cons c s ih =>
    have hc : c ≠ '\n' := by
      rintro rfl
      simp at hs
    rw [linesGo, if_neg hc, ih fun h => hs (by simp [h])]
    simp

theorem lines_line {l : Text} (hl : '\n' ∉ l) (hne : l ≠ []) : lines l = [l] := by
  rw [lines, linesGo_tail hl, List.nil_append, if_neg hne]

theorem join_concat_unlines (ls : List Text) (l : Text) :
    join "\n" (ls ++ [l]) = unlines ls ++ l := by
  by_cases hls : ls = []
  · simp [hls, join]
  · rw [join_concat hls, unlines_eq_join hls]
    simp

theorem lines_join_concat {ls : List Text} {l : Text} (hls : ∀ k ∈ ls, '\n' ∉ k) (hl : '\n' ∉ l)
    (hne : l ≠ []) : lines (join "\n" (ls ++ [l])) = ls.map stripCr ++ [l] := by
  rw [join_concat_unlines, lines_unlines_append hls, lines_line hl hne]

/-- What is left of the lines of a text that is cut somewhere: the last one may be a part. -/
inductive CutOf : List Text → List Text → Prop where
  | done (ls : List Text) : CutOf [] ls
  | part {p l : Text} (ls : List Text) (hne : p ≠ []) (hp : p <+: l) : CutOf [p] (l :: ls)
  | line {cut ls : List Text} (l : Text) (h : CutOf cut ls) : CutOf (stripCr l :: cut) (l :: ls)

theorem cutOf_lines {ls : List Text} {s : Text} (hls : ∀ l ∈ ls, '\n' ∉ l)
    (hs : s <+: unlines ls) : CutOf (lines s) ls := by
  induction ls generalizing s with
  | nil =>
    rw [List.prefix_nil.mp hs]
    exact .done []
  | cons l ls ih =>
    have hl : '\n' ∉ l := hls l (by simp)
    rw [unlines_cons] at hs
    by_cases hline : l ++ ['\n'] <+: s
    · obtain ⟨t, rfl⟩ := hline
      have ht : t <+: unlines ls := (List.prefix_append_right_inj _).mp hs
      have hgo : lines (l ++ ['\n'] ++ t) = stripCr l :: lines t := by
        rw [lines, List.append_assoc, List.singleton_append, linesGo_line hl]
        rfl
      rw [hgo]
      exact .line l (ih (fun k hk => hls k (by simp [hk])) ht)
    · have hpart : s <+: l := by
        rcases List.prefix_or_prefix_of_prefix hs (List.prefix_append _ _) with h | h
        · rcases List.prefix_concat_iff.mp h with rfl | h
          · exact absurd (List.prefix_refl _) hline
          · exact h
        · exact absurd h hline
      by_cases hne : s = []
      · subst hne
        exact .done _
      · rw [lines_line (fun h => hl (hpart.subset h)) hne]
        exact .part ls hne hpart

theorem unlines_length_cons (l : Text) (ls : List Text) :
    (unlines (l :: ls)).length = l.length + 1 + (unlines ls).length := by
  simp only [unlines_cons, List.length_append, List.length_cons, List.length_nil]

theorem unlines_length_join {ls : List Text} (hls : ls ≠ []) :
    (unlines ls).length = (join "\n" ls).length + 1 := by
  simp [unlines_eq_join hls]

theorem length_stripCr (l : Text) : (stripCr l).length ≤ l.length := by
  unfold stripCr
  split
  · simp
  · exact le_rfl

theorem stripCr_le (l : Text) : stripCr l <+: l := by
  unfold stripCr
  split
  · exact List.dropLast_prefix l
  · exact List.prefix_refl l

theorem unlines_length_linesGo (acc s : Text) :
    (unlines (linesGo acc s)).length ≤ acc.length + s.length + 1 := by
  induction s generalizing acc with
  | nil =>
    rw [linesGo]
    by_cases h : acc = []
    · simp [h]
    · simp [h, unlines_length_cons]
  | cons c s ih =>
    rw [linesGo]
    by_cases hc : c = '\n'
    · have := ih []
      have := length_stripCr acc
      simp only [hc, if_true, unlines_length_cons, List.length_cons, List.length_nil] at *
      omega
    · have := ih (acc ++ [c])
      simp only [hc, if_false, List.length_append, List.length_cons, List.length_nil] at *
      omega

theorem unlines_length_lines (s : Text) : (unlines (lines s)).length ≤ s.length + 1 := by
  simpa [lines] using unlines_length_linesGo [] s

theorem unlines_length_le {cut ls : List Text} (h : List.SublistForall₂ (· <+: ·) cut ls) :
    (unlines cut).length ≤ (unlines ls).length := by
  induction h with
  | nil => simp
  | cons hp _ ih =>
    have := hp.length_le
    simp only [unlines_length_cons]
    omega
  | cons_right _ ih =>
    simp only [unlines_length_cons]
    omega

theorem eq_of_unlines_length {cut ls : List Text} (h : List.SublistForall₂ (· <+: ·) cut ls)
    (hlen : (unlines ls).length ≤ (unlines cut).length) : cut = ls := by
  induction h with
  | @nil ls =>
    cases ls with
    | nil => rfl
    | cons l ls =>
      simp only [unlines_length_cons, unlines_nil, List.length_nil] at hlen
      omega
  | cons hp h ih =>
    have := hp.length_le
    have := unlines_length_le h
    simp only [unlines_length_cons] at hlen
    rw [hp.eq_of_length_le (by omega), ih (by omega)]
  | cons_right h ih =>
    have := unlines_length_le h
    simp only [unlines_length_cons] at hlen
    omega

theorem sublistForall₂_stripCr_append (ls tail : List Text) :
    List.SublistForall₂ (· <+: ·) (ls.map stripCr ++ tail) (ls ++ tail) := by
  induction ls with
  | nil => exact refl_of (List.SublistForall₂ (· <+: ·)) tail
  | cons l ls ih => exact .cons (stripCr_le l) ih

theorem sublistForall₂_stripCr (ls : List Text) :
    List.SublistForall₂ (· <+: ·) (ls.map stripCr) ls := by
  have := sublistForall₂_stripCr_append ls []
  rwa [List.append_nil, List.append_nil] at this

theorem map_stripCr_eq_self_iff (ls : List Text) :
    ls.map stripCr = ls ↔ ∀ l ∈ ls, stripCr l = l := by
  have := List.map_inj_left (l := ls) (f := stripCr) (g := id)
  rwa [List.map_id] at this

end Text

end Jitgen
