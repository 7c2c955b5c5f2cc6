import Jitgen.Framework.Text

/-!
# Texts as lists of lines

A text is the concatenation of its raw lines: every one of them ends in a newline, except that the
last one may lack it.
-/

namespace Jitgen

namespace Text

/-- The lines of a text with their newlines. -/
def rawLines : Text → List Text
  | [] => []
  | c :: cs =>
    if c = '\n' then ['\n'] :: rawLines cs
    else
      match rawLines cs with
      | [] => [[c]]
      | l :: ls => (c :: l) :: ls

def Terminated (line : Text) : Prop := line.getLast? = some '\n'

instance (line : Text) : Decidable (Terminated line) := inferInstanceAs (Decidable (_ = _))

/-- A raw line without its newline. -/
def chomp (line : Text) : Text := if Terminated line then line.dropLast else line

/-- The lines, each followed by a newline. -/
def unlines (ls : List Text) : Text := ls.flatMap fun l => l ++ ['\n']

theorem endsWith_newline (s : Text) : endsWith s "\n" = true ↔ Terminated s := by
  have hsuffix : endsWith s "\n" = true ↔ ['\n'] <:+ s := List.isSuffixOf_iff_suffix
  rw [hsuffix, Terminated, List.getLast?_eq_some_iff]
  exact ⟨fun ⟨t, h⟩ => ⟨t, h.symm⟩, fun ⟨t, h⟩ => ⟨t, h.symm⟩⟩

@[simp] theorem unlines_nil : unlines [] = [] := rfl

theorem unlines_cons (l : Text) (ls : List Text) : unlines (l :: ls) = l ++ ['\n'] ++ unlines ls :=
  List.flatMap_cons

theorem unlines_append (ls ls' : List Text) : unlines (ls ++ ls') = unlines ls ++ unlines ls' :=
  List.flatMap_append

theorem unlines_flatMap {α : Type} (f : α → List Text) (l : List α) :
    unlines (l.flatMap f) = (l.map fun x => unlines (f x)).flatten := by
  induction l with
  | nil => rfl
  | cons x l ih => rw [List.flatMap_cons, unlines_append, ih, List.map_cons, List.flatten_cons]

theorem rawLines_flatten (s : Text) : (rawLines s).flatten = s := by
  induction s with
  | nil => rfl
  | cons c cs ih =>
    rw [rawLines]
    by_cases hc : c = '\n'
    · simp [hc, ih]
    · rw [if_neg hc]
      cases h : rawLines cs with
      | nil =>
        rw [h] at ih
        simp [← ih]
      | cons l ls =>
        rw [h] at ih
        simp [← ih]

theorem rawLines_eq_nil {s : Text} (h : rawLines s = []) : s = [] := by
  rw [← rawLines_flatten s, h]
  rfl

theorem terminated_cons {c : Char} {l : Text} (hl : l ≠ []) :
    Terminated (c :: l) ↔ Terminated l := by
  cases l with
  | nil => exact absurd rfl hl
  | cons d l => simp [Terminated, List.getLast?_cons_cons]

theorem chomp_cons {c : Char} {l : Text} (hl : l ≠ []) : chomp (c :: l) = c :: chomp l := by
  cases l with
  | nil => exact absurd rfl hl
  | cons d l =>
    unfold chomp
    by_cases h : Terminated (d :: l)
    · rw [if_pos ((terminated_cons hl).mpr h), if_pos h, List.dropLast_cons_cons]
    · rw [if_neg (mt (terminated_cons hl).mp h), if_neg h]

theorem chomp_newline : chomp ['\n'] = [] := by decide

theorem chomp_append_newline (l : Text) : chomp (l ++ ['\n']) = l := by
  simp [chomp, Terminated]

theorem terminated_append_newline (l : Text) : Terminated (l ++ ['\n']) := by
  simp [Terminated]

theorem chomp_of_not_terminated {l : Text} (h : ¬ Terminated l) : chomp l = l := if_neg h

theorem rawLines_ne_nil {s l : Text} (h : l ∈ rawLines s) : l ≠ [] := by
  induction s generalizing l with
  | nil => simp [rawLines] at h
  | cons c cs ih =>
    rw [rawLines] at h
    by_cases hc : c = '\n'
    · rw [if_pos hc] at h
      rcases List.mem_cons.mp h with rfl | h
      · simp
      · exact ih h
    · rw [if_neg hc] at h
      cases hraw : rawLines cs with
      | nil => simp_all
      | cons l' ls =>
        rw [hraw] at h ih
        rcases List.mem_cons.mp h with rfl | h
        · simp
        · exact ih (by simp [h])

/-- A raw line has its newline at its end only. -/
theorem newline_notMem_chomp {s l : Text} (h : l ∈ rawLines s) : '\n' ∉ chomp l := by
  induction s generalizing l with
  | nil => simp [rawLines] at h
  | cons c cs ih =>
    rw [rawLines] at h
    by_cases hc : c = '\n'
    · rw [if_pos hc] at h
      rcases List.mem_cons.mp h with rfl | h
      · simp [chomp_newline]
      · exact ih h
    · rw [if_neg hc] at h
      cases hraw : rawLines cs with
      | nil =>
        rw [hraw] at h
        obtain rfl := List.mem_singleton.mp h
        have hne : ¬ Terminated [c] := by simp [Terminated, hc]
        rw [chomp_of_not_terminated hne]
        simpa using Ne.symm hc
      | cons l' ls =>
        have hl' : l' ∈ rawLines cs := by simp [hraw]
        rw [hraw] at h
        rcases List.mem_cons.mp h with rfl | h
        · rw [chomp_cons (rawLines_ne_nil hl')]
          have := ih hl'
          simpa [Ne.symm hc] using this
        · exact ih (by simp [hraw, h])

/-- Splitting at newlines gives the lines, and an empty piece after a final newline. -/
theorem splitOn_newline (s : Text) :
    s.splitOn '\n' = (rawLines s).map chomp ++ if s = [] ∨ Terminated s then [[]] else [] := by
  induction s with
  | nil => rfl
  | cons c cs ih =>
    rw [List.splitOn_cons_eq_if_modifyHead, rawLines]
    by_cases hc : c = '\n'
    · subst hc
      have hlast : Terminated ('\n' :: cs) ↔ cs = [] ∨ Terminated cs := by
        by_cases hcs : cs = []
        · simp [hcs, Terminated]
        · simp [terminated_cons hcs, hcs]
      simp [ih, hlast, chomp_newline]
    · rw [if_neg (by simpa using hc), if_neg hc, ih]
      cases hraw : rawLines cs with
      | nil =>
        obtain rfl := rawLines_eq_nil hraw
        have hne : ¬ Terminated [c] := by simp [Terminated, hc]
        simp [chomp_of_not_terminated hne, hne]
      | cons l ls =>
        have hcs : cs ≠ [] := by
          rintro rfl
          simp [rawLines] at hraw
        have hl : l ≠ [] := rawLines_ne_nil (s := cs) (by simp [hraw])
        simp [chomp_cons hl, terminated_cons hcs, hcs]

/-- Only the last raw line may lack its newline. -/
theorem terminated_of_not_last {s l : Text} {before after : List Text}
    (h : rawLines s = before ++ l :: after) (hafter : after ≠ []) : Terminated l := by
  induction s generalizing before l with
  | nil => simp [rawLines] at h
  | cons c cs ih =>
    rw [rawLines] at h
    by_cases hc : c = '\n'
    · rw [if_pos hc] at h
      cases before with
      | nil =>
        obtain ⟨rfl, -⟩ := List.cons.inj h
        simp [Terminated]
      | cons b before =>
        exact ih (List.cons.inj h).2
    · rw [if_neg hc] at h
      cases hraw : rawLines cs with
      | nil =>
        rw [hraw] at h
        cases before with
        | nil => exact absurd (List.cons.inj h).2.symm hafter
        | cons b before => simp at h
      | cons l' ls =>
        rw [hraw] at h
        cases before with
        | nil =>
          obtain ⟨rfl, rfl⟩ := List.cons.inj h
          have hne : l' ≠ [] := rawLines_ne_nil (s := cs) (by simp [hraw])
          rw [terminated_cons hne]
          exact ih (show rawLines cs = [] ++ l' :: ls from hraw)
        | cons b before =>
          obtain ⟨-, h⟩ := List.cons.inj h
          have hcs : rawLines cs = (l' :: before) ++ l :: after := by
            rw [hraw, h]
            rfl
          exact ih hcs

theorem terminated_iff_last {s l : Text} {before : List Text} (h : rawLines s = before ++ [l]) :
    Terminated s ↔ Terminated l := by
  have hne : l ≠ [] := rawLines_ne_nil (s := s) (by simp [h])
  have hs : s = before.flatten ++ l := by
    rw [← rawLines_flatten s, h]
    simp
  unfold Terminated
  rw [hs, List.getLast?_append]
  cases hl : l.getLast? with
  | none => exact absurd (List.getLast?_eq_none_iff.mp hl) hne
  | some c => simp

theorem rawLines_line {l cs : Text} (hl : '\n' ∉ l) :
    rawLines (l ++ '\n' :: cs) = (l ++ ['\n']) :: rawLines cs := by
  induction l with
  | nil => simp [rawLines]
  | cons c l ih =>
    have hc : c ≠ '\n' := by
      rintro rfl
      simp at hl
    have hl' : '\n' ∉ l := by
      intro hmem
      exact hl (by simp [hmem])
    rw [List.cons_append, rawLines, if_neg hc, ih hl']
    rfl

theorem rawLines_unlines {ls : List Text} (hls : ∀ l ∈ ls, '\n' ∉ l) :
    rawLines (unlines ls) = ls.map (· ++ ['\n']) := by
  induction ls with
  | nil => rfl
  | cons l ls ih =>
    have hcons : unlines (l :: ls) = l ++ '\n' :: unlines ls := by simp [unlines]
    rw [hcons, rawLines_line (hls l (by simp)), ih fun l hl => hls l (by simp [hl])]
    rfl

theorem mem_of_mem_stripCr {s : Text} {c : Char} (h : c ∈ stripCr s) : c ∈ s := by
  unfold stripCr at h
  split at h
  · exact List.dropLast_subset s h
  · exact h

theorem newline_notMem_linesGo {acc s l : Text} (hacc : '\n' ∉ acc) (h : l ∈ linesGo acc s) :
    '\n' ∉ l := by
  induction s generalizing acc with
  | nil =>
    rw [linesGo] at h
    split at h
    · simp at h
    · rwa [List.mem_singleton.mp h]
  | cons c cs ih =>
    rw [linesGo] at h
    by_cases hc : c = '\n'
    · rw [if_pos hc] at h
      rcases List.mem_cons.mp h with rfl | h
      · exact fun hmem => hacc (mem_of_mem_stripCr hmem)
      · exact ih (by simp) h
    · rw [if_neg hc] at h
      exact ih (by simpa [hacc] using Ne.symm hc) h

theorem newline_notMem_lines {s l : Text} (h : l ∈ lines s) : '\n' ∉ l :=
  newline_notMem_linesGo (by simp) h

theorem linesGo_line {acc l cs : Text} (hl : '\n' ∉ l) :
    linesGo acc (l ++ '\n' :: cs) = stripCr (acc ++ l) :: linesGo [] cs := by
  induction l generalizing acc with
  | nil => simp [linesGo]
  | cons c l ih =>
    have hc : c ≠ '\n' := by
      rintro rfl
      simp at hl
    have hl' : '\n' ∉ l := by
      intro hmem
      exact hl (by simp [hmem])
    rw [List.cons_append, linesGo, if_neg hc, ih hl']
    simp

theorem lines_unlines_append {ls : List Text} (hls : ∀ l ∈ ls, '\n' ∉ l) (s : Text) :
    lines (unlines ls ++ s) = ls.map stripCr ++ lines s := by
  induction ls with
  | nil => rfl
  | cons l ls ih =>
    have hcons : unlines (l :: ls) ++ s = l ++ '\n' :: (unlines ls ++ s) := by simp [unlines]
    have htail := ih fun l hl => hls l (by simp [hl])
    unfold lines at htail ⊢
    rw [hcons, linesGo_line (hls l (by simp)), htail]
    rfl

theorem lines_unlines {ls : List Text} (hls : ∀ l ∈ ls, '\n' ∉ l) :
    lines (unlines ls) = ls.map stripCr := by
  have := lines_unlines_append hls []
  simpa [lines, linesGo] using this

theorem stripCr_cons {c : Char} (hc : c ≠ '\r') (s : Text) :
    stripCr (c :: s) = c :: stripCr s := by
  cases s with
  | nil => simp [stripCr, hc]
  | cons d s =>
    unfold stripCr
    rw [List.getLast?_cons_cons]
    split
    · rw [List.dropLast_cons_cons]
    · rfl

theorem stripCr_append {s : Text} (hs : '\r' ∉ s) (t : Text) :
    stripCr (s ++ t) = s ++ stripCr t := by
  induction s with
  | nil => rfl
  | cons c s ih =>
    have hc : c ≠ '\r' := by
      rintro rfl
      simp at hs
    rw [List.cons_append, stripCr_cons hc, ih fun h => hs (by simp [h]), List.cons_append]

theorem stripCr_eq_self_iff (s : Text) : stripCr s = s ↔ s.getLast? ≠ some '\r' := by
  unfold stripCr
  constructor
  · intro h hlast
    rw [if_pos hlast] at h
    have hlen := congrArg List.length h
    have hne : s ≠ [] := by
      rintro rfl
      simp at hlast
    have := List.length_pos_iff.mpr hne
    rw [List.length_dropLast] at hlen
    omega
  · intro h
    exact if_neg h

theorem count_stripCr_le (s : Text) : (stripCr s).count '\r' ≤ s.count '\r' := by
  unfold stripCr
  split
  · exact (List.dropLast_sublist s).count_le '\r'
  · exact le_rfl

theorem count_stripCr_lt {s : Text} (h : s.getLast? = some '\r') :
    (stripCr s).count '\r' < s.count '\r' := by
  obtain ⟨t, rfl⟩ := List.getLast?_eq_some_iff.mp h
  simp [stripCr]

theorem join_append_singleton (sep : Text) {ls : List Text} (hls : ls ≠ []) (l : Text) :
    join sep (ls ++ [l]) = join sep ls ++ sep ++ l := by
  induction ls with
  | nil => exact absurd rfl hls
  | cons x ls ih =>
    cases ls with
    | nil => simp [join, List.intercalate]
    | cons y ls =>
      have := ih (by simp)
      simp only [join, List.intercalate, List.cons_append, List.intersperse_cons_cons,
        List.flatten_cons, List.append_assoc] at this ⊢
      rw [this]

theorem exists_join_concat (sep : Text) (ls : List Text) (l : Text) :
    ∃ s, join sep (ls ++ [l]) = s ++ l := by
  by_cases hls : ls = []
  · exact ⟨[], by simp [hls, join]⟩
  · exact ⟨_, join_append_singleton sep hls l⟩

theorem join_concat {ls : List Text} (hls : ls ≠ []) (l : Text) :
    join "\n" (ls ++ [l]) = join "\n" ls ++ '\n' :: l := by
  simpa using join_append_singleton "\n" hls l

theorem unlines_eq_join {ls : List Text} (hls : ls ≠ []) : unlines ls = join "\n" ls ++ ['\n'] := by
  induction ls using List.reverseRecOn with
  | nil => exact absurd rfl hls
  | append_singleton ls l ih =>
    by_cases hne : ls = []
    · simp [hne, unlines, join, List.intercalate]
    · rw [join_concat hne, unlines, List.flatMap_append]
      have := ih hne
      unfold unlines at this
      rw [this]
      simp

theorem splitOn_join {ls : List Text} (hls : ∀ l ∈ ls, '\n' ∉ l) (hne : ls ≠ []) :
    (join "\n" ls).splitOn '\n' = ls :=
  List.splitOn_intercalate '\n' hls hne

theorem join_ne_nil {ls : List Text} (hls : ls ≠ []) (hblank : ls ≠ [[]]) : join "\n" ls ≠ [] := by
  induction ls using List.reverseRecOn with
  | nil => exact absurd rfl hls
  | append_singleton ls l =>
    by_cases hne : ls = []
    · subst hne
      intro h
      have hl : l = [] := by simpa [join] using h
      simp [hl] at hblank
    · rw [join_concat hne]
      simp

/-- Lines joined without a final newline end in one exactly when the last of them is empty. -/
theorem terminated_join_iff {ls : List Text} (hls : ∀ l ∈ ls, '\n' ∉ l) :
    Terminated (join "\n" ls) ↔ ls.getLast? = some [] ∧ ls ≠ [[]] := by
  induction ls using List.reverseRecOn with
  | nil => simp [join, Terminated]
  | append_singleton ls l =>
    have hl : l.getLast? ≠ some '\n' := by
      intro h
      exact hls l (by simp) (List.mem_of_getLast? h)
    by_cases hne : ls = []
    · subst hne
      constructor
      · intro h
        exact absurd (by simpa [join, Terminated] using h) hl
      · intro h
        have hnil : l = [] := by simpa using h.1
        simp [hnil] at h
    · have hmany : ls ++ [l] ≠ [[]] := by
        intro h
        have hlen := congrArg List.length h
        have hpos := List.length_pos_iff.mpr hne
        rw [List.length_append, List.length_singleton, List.length_singleton] at hlen
        omega
      rw [join_concat hne, Terminated, List.getLast?_append]
      cases l with
      | nil => simpa using hmany
      | cons c l =>
        have hcons : ('\n' :: c :: l).getLast? = (c :: l).getLast? := List.getLast?_cons_cons
        have hsome : (c :: l).getLast? = some ((c :: l).getLast (by simp)) :=
          List.getLast?_eq_some_getLast (by simp)
        rw [hcons]
        rw [hsome] at hl ⊢
        simpa using hl

theorem text_eq_join {s : Text} (hs : s ≠ []) :
    s = join "\n" ((rawLines s).map chomp) ++ if Terminated s then ['\n'] else [] := by
  have hsplit := splitOn_newline s
  have hraw : rawLines s ≠ [] := fun h => hs (rawLines_eq_nil h)
  by_cases hterm : Terminated s
  · rw [if_pos (.inr hterm)] at hsplit
    rw [if_pos hterm]
    calc s = join "\n" (s.splitOn '\n') := (List.intercalate_splitOn '\n').symm
      _ = join "\n" ((rawLines s).map chomp) ++ ['\n'] := by
        rw [hsplit, join_concat (by simpa using hraw)]
  · rw [if_neg (by simp [hs, hterm]), List.append_nil] at hsplit
    rw [if_neg hterm, List.append_nil, ← hsplit]
    exact (List.intercalate_splitOn '\n').symm

end Text

end Jitgen
