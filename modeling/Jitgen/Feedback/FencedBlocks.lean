import Jitgen.Feedback.LlmStep
import Jitgen.Framework.Cut

/-!
# What is read of a fenced block
-/

namespace Jitgen

open Text

/-- The lines up to the next fence. -/
def blockLines (ls : List Text) : List Text := ls.takeWhile (!isFenceLine ·)

/-- The lines behind the next fence. -/
def afterBlock (ls : List Text) : List Text := (ls.dropWhile (!isFenceLine ·)).tail

theorem blocksFrom_some (acc ls : List Text) :
    blocksFrom (some acc) ls =
      blockBody (acc ++ blockLines ls) :: blocksFrom none (afterBlock ls) := by
  induction ls generalizing acc with
  | nil => simp [blocksFrom, blockLines, afterBlock]
  | cons l ls ih =>
    rw [blocksFrom]
    by_cases hl : isFenceLine l
    · simp [hl, blockLines, afterBlock]
    · rw [if_neg hl, ih]
      simp [hl, blockLines, afterBlock]

theorem blockLines_append {ls : List Text} (hls : ∀ l ∈ ls, isFenceLine l = false)
    (rest : List Text) : blockLines (ls ++ rest) = ls ++ blockLines rest := by
  induction ls with
  | nil => rfl
  | cons l ls ih =>
    have hl := hls l (by simp)
    have := ih fun k hk => hls k (by simp [hk])
    unfold blockLines at this ⊢
    simp [hl, this]

theorem afterBlock_append {ls : List Text} (hls : ∀ l ∈ ls, isFenceLine l = false)
    (rest : List Text) : afterBlock (ls ++ rest) = afterBlock rest := by
  induction ls with
  | nil => rfl
  | cons l ls ih =>
    have hl := hls l (by simp)
    have := ih fun k hk => hls k (by simp [hk])
    unfold afterBlock at this ⊢
    simp [hl, this]

theorem blockLines_free (ls : List Text) : ∀ l ∈ blockLines ls, isFenceLine l = false := by
  intro l hl
  simpa using List.mem_takeWhile_imp hl

def pathLine (path : Text) : Text := "path: " ++ path

/-- The diff of a block whose lines after the path are `ls`. -/
def blockDiff (ls : List Text) : Text :=
  (join "\n" (lines (trimEnd (join "\n" ls)))).take maxMutantDiffChars

theorem pathLine_not_fence (path : Text) : isFenceLine (pathLine path) = false := rfl

theorem newline_notMem_pathLine {path : Text} (hline : '\n' ∉ path) : '\n' ∉ pathLine path := by
  intro h
  rcases List.mem_append.mp h with h | h
  · exact absurd h (by decide)
  · exact hline h

theorem trim_pathLine {path : Text} (htrim : trim path = path) (hne : path ≠ []) :
    trim (pathLine path) = pathLine path := by
  have hstart : trimStart (pathLine path) = pathLine path := rfl
  have hend : trimEnd (pathLine path) = pathLine path := by
    have hpath := (trimEnd_eq_self_iff path).mp ((trimmed_iff path).mp htrim).2
    have hlast : (pathLine path).getLast? = path.getLast? := List.getLast?_append_of_ne_nil _ hne
    apply (trimEnd_eq_self_iff _).mpr
    rw [hlast]
    exact hpath
  rw [trim, hstart, hend]

private theorem trim_blank_append {path : Text} (htrim : trim path = path) :
    trim (' ' :: path) = path := by
  have hboth := (trimmed_iff path).mp htrim
  have hstart : trimStart (' ' :: path) = trimStart path := rfl
  rw [trim, hstart, hboth.1, hboth.2]

theorem parseMutantBlock_pathLine {path : Text} (hline : '\n' ∉ path) (htrim : trim path = path)
    (hne : path ≠ []) (hshort : path.length ≤ maxPathChars) (ls : List Text) :
    parseMutantBlock (blockBody (pathLine path :: ls)) =
      if ls.all isBlank then none else some (path, blockDiff ls) := by
  have hhead := newline_notMem_pathLine hline
  have hheadne : pathLine path ≠ [] := List.append_ne_nil_of_left_ne_nil (by decide) path
  have htrimmed : trimEnd (pathLine path) = pathLine path :=
    ((trimmed_iff _).mp (trim_pathLine htrim hne)).2
  have hcr : stripCr (pathLine path) = pathLine path := by
    rw [stripCr_eq_self_iff]
    intro hlast
    have := (trimEnd_eq_self_iff _).mp htrimmed _ hlast
    exact absurd this (by decide)
  have hlines : lines (blockBody (pathLine path :: ls)) =
      pathLine path :: lines (trimEnd (join "\n" ls)) := by
    by_cases hls : ls = []
    · subst hls
      have hjoin : join "\n" [pathLine path] = pathLine path := by simp [join]
      rw [blockBody, hjoin, htrimmed, lines_line hhead hheadne]
      rfl
    · have hjoin : join "\n" (pathLine path :: ls) = pathLine path ++ ('\n' :: join "\n" ls) := by
        obtain ⟨l, ls, rfl⟩ := List.exists_cons_of_ne_nil hls
        simp [join, List.intercalate]
      have hblank : isBlank ('\n' :: join "\n" ls) = isBlank (join "\n" ls) := rfl
      rw [blockBody, hjoin, trimEnd_append, hblank]
      by_cases hb : isBlank (join "\n" ls)
      · rw [if_pos hb, htrimmed, lines_line hhead hheadne, trimEnd_of_blank hb]
        rfl
      · have htail : trimEnd ('\n' :: join "\n" ls) = '\n' :: trimEnd (join "\n" ls) := by
          have := trimEnd_append ['\n'] (join "\n" ls)
          rwa [if_neg hb] at this
        rw [if_neg hb, htail, lines, linesGo_line hhead, List.nil_append, hcr]
        rfl
  have hpre : stripPrefix "path:" (pathLine path) = some (' ' :: path) := rfl
  rw [parseMutantBlock, hlines]
  dsimp only
  rw [trim_pathLine htrim hne, hpre, Option.some_or]
  dsimp only
  rw [trim_blank_append htrim, List.take_of_length_le hshort]
  have hnonempty : path.isEmpty = false := by simpa using hne
  rw [hnonempty, Bool.false_or, isBlank_join_lines, isBlank_trimEnd, isBlank_join]
  rfl

theorem parseMutantBlock_named {block path diff : Text}
    (h : parseMutantBlock block = some (path, diff)) : path ≠ [] := by
  unfold parseMutantBlock at h
  split at h
  · cases h
  · dsimp only at h
    split at h
    · cases h
    · split_ifs at h with hempty
      intro hpath
      have hnonempty := (Bool.or_eq_false_iff.mp (Bool.eq_false_iff.mpr hempty)).1
      cases h
      have hcap : maxPathChars ≠ 0 := by decide
      simp_all

/-- The last line is there and ends in a character that is not white space. -/
def endsPlain (ls : List Text) : Bool := (ls.getLast?.bind List.getLast?).any (!isWhitespace ·)

private theorem endsPlain_concat (ls : List Text) (l : Text) :
    endsPlain (ls ++ [l]) = true ↔ l ≠ [] ∧ trimEnd l = l := by
  have hend : endsPlain (ls ++ [l]) = l.getLast?.any (!isWhitespace ·) := by
    simp [endsPlain]
  rw [hend]
  constructor
  · intro h
    obtain ⟨c, hc, hplain⟩ := (Option.any_eq_true _ _).mp h
    constructor
    · rintro rfl
      simp at hc
    · rw [trimEnd_eq_self_iff]
      intro d hd
      rw [hc] at hd
      cases hd
      simpa using hplain
  · intro h
    have hlast : l.getLast? = some (l.getLast h.1) := List.getLast?_eq_some_getLast h.1
    have := (trimEnd_eq_self_iff l).mp h.2 _ hlast
    simp [hlast, this]

private theorem endsPlain_iff (ls : List Text) :
    endsPlain ls = true ↔ join "\n" ls ≠ [] ∧ trimEnd (join "\n" ls) = join "\n" ls := by
  induction ls using List.reverseRecOn with
  | nil => simp [endsPlain, join]
  | append_singleton ls l =>
    rw [endsPlain_concat, join_concat_unlines]
    by_cases hl : l = []
    · subst hl
      by_cases hls : ls = []
      · simp [hls]
      · have hnewline : trimEnd (unlines ls ++ []) ≠ unlines ls ++ [] := by
          intro h
          have hlast : (unlines ls ++ []).getLast? = some '\n' := by
            simp [unlines_eq_join hls]
          have := (trimEnd_eq_self_iff _).mp h _ hlast
          exact absurd this (by decide)
        simp only [ne_eq, not_true_eq_false, false_and, hnewline, and_false]
    · have hlast : (unlines ls ++ l).getLast? = l.getLast? := List.getLast?_append_of_ne_nil _ hl
      rw [trimEnd_eq_self_iff, trimEnd_eq_self_iff, hlast]
      simp [hl]

private theorem unlines_length_blockDiff (ls : List Text) :
    (unlines (lines (blockDiff ls))).length ≤
      (unlines (lines (trimEnd (join "\n" ls)))).length := by
  by_cases hnil : lines (trimEnd (join "\n" ls)) = []
  · have hempty : blockDiff ls = [] := by
      rw [blockDiff, hnil]
      rfl
    rw [hempty, hnil]
    rfl
  · have hdiff := unlines_length_lines (blockDiff ls)
    have htake : (blockDiff ls).length ≤
        (join "\n" (lines (trimEnd (join "\n" ls)))).length := List.length_take_le' _ _
    rw [unlines_length_join hnil]
    omega

/-- The diff that is read has the lines of the given one only if nothing was cut or trimmed. -/
theorem kept_of_lines_blockDiff {ls diff : List Text} (hcut : List.SublistForall₂ (· <+: ·) ls diff)
    (hdiff : diff ≠ []) (hline : ∀ l ∈ diff, '\n' ∉ l) (h : lines (blockDiff ls) = diff) :
    ls = diff ∧ endsPlain diff = true ∧ ∀ l ∈ diff, stripCr l = l := by
  have hread := unlines_length_blockDiff ls
  have hlines := unlines_length_lines (trimEnd (join "\n" ls))
  have htrim : trimEnd (join "\n" ls) <+: join "\n" ls := List.rdropWhile_prefix isWhitespace _
  have hls : ls ≠ [] := by
    rintro rfl
    exact hdiff h.symm
  rw [h] at hread
  have hjoin := unlines_length_join hls
  have hle := htrim.length_le
  obtain rfl : ls = diff := eq_of_unlines_length hcut (by omega)
  have heq : trimEnd (join "\n" ls) = join "\n" ls := htrim.eq_of_length_le (by omega)
  have hplain : endsPlain ls = true := by
    rw [endsPlain_iff]
    constructor
    · intro hnil
      rw [blockDiff, hnil] at h
      exact hls h.symm
    · exact heq
  refine ⟨rfl, hplain, ?_⟩
  induction ls using List.reverseRecOn with
  | nil => exact absurd rfl hls
  | append_singleton init l =>
    have hl := (endsPlain_concat init l).mp hplain
    have hinit : ∀ k ∈ init, '\n' ∉ k := fun k hk => hline k (by simp [hk])
    rw [heq, lines_join_concat hinit (hline l (by simp)) hl.1] at hread
    have hkept := eq_of_unlines_length (sublistForall₂_stripCr_append init [l]) hread
    have hmap : init.map stripCr = init := List.append_cancel_right hkept
    intro k hk
    rcases List.mem_append.mp hk with hk | hk
    · exact (map_stripCr_eq_self_iff init).mp hmap k hk
    · rw [List.mem_singleton.mp hk, stripCr_eq_self_iff]
      intro hcr
      have := (trimEnd_eq_self_iff l).mp hl.2 _ hcr
      exact absurd this (by decide)

theorem lines_join_plain {diff : List Text} (hline : ∀ l ∈ diff, '\n' ∉ l)
    (hcr : ∀ l ∈ diff, stripCr l = l) (hend : endsPlain diff = true) :
    lines (join "\n" diff) = diff := by
  induction diff using List.reverseRecOn with
  | nil => simp [endsPlain] at hend
  | append_singleton init l =>
    have hl := (endsPlain_concat init l).mp hend
    have hinit : ∀ k ∈ init, '\n' ∉ k := fun k hk => hline k (by simp [hk])
    have hmap : init.map stripCr = init :=
      (map_stripCr_eq_self_iff init).mpr fun k hk => hcr k (by simp [hk])
    rw [lines_join_concat hinit (hline l (by simp)) hl.1, hmap]

theorem blockDiff_plain {diff : List Text} (hline : ∀ l ∈ diff, '\n' ∉ l)
    (hcr : ∀ l ∈ diff, stripCr l = l) (hend : endsPlain diff = true)
    (hshort : (unlines diff).length ≤ maxMutantDiffChars) : blockDiff diff = join "\n" diff := by
  have hne : diff ≠ [] := by
    rintro rfl
    simp [endsPlain] at hend
  have hlen := unlines_length_join hne
  rw [blockDiff, ((endsPlain_iff diff).mp hend).2, lines_join_plain hline hcr hend,
    List.take_of_length_le (by omega)]

theorem lines_blockDiff_concat_iff {diff : List Text} {p : Text} (hline : ∀ l ∈ diff, '\n' ∉ l)
    (hp : '\n' ∉ p) (hend : p ≠ [] ∧ trimEnd p = p)
    (hshort : (unlines diff).length ≤ maxMutantDiffChars) :
    lines (blockDiff (diff.map stripCr ++ [p])) = diff ↔
      (∀ l ∈ diff, stripCr l = l) ∧ (unlines diff).length = maxMutantDiffChars := by
  have hstrip : ∀ ls : List Text, (∀ l ∈ ls, '\n' ∉ l) → ∀ l ∈ ls.map stripCr, '\n' ∉ l := by
    intro ls hls l hl
    obtain ⟨k, hk, rfl⟩ := List.mem_map.mp hl
    exact fun h => hls k hk (mem_of_mem_stripCr h)
  have hplain : endsPlain (diff.map stripCr ++ [p]) = true := (endsPlain_concat _ _).mpr hend
  have hdiff : blockDiff (diff.map stripCr ++ [p]) =
      (unlines ((diff.map stripCr).map stripCr) ++ p).take maxMutantDiffChars := by
    rw [blockDiff, ((endsPlain_iff _).mp hplain).2,
      lines_join_concat (hstrip diff hline) hp hend.1, join_concat_unlines]
  have honce := unlines_length_le (sublistForall₂_stripCr diff)
  have htwice := unlines_length_le (sublistForall₂_stripCr (diff.map stripCr))
  rw [hdiff]
  constructor
  · intro h
    by_cases hfull : maxMutantDiffChars ≤ (unlines ((diff.map stripCr).map stripCr)).length
    · have hmap : diff.map stripCr = diff :=
        eq_of_unlines_length (sublistForall₂_stripCr diff) (by omega)
      exact ⟨(map_stripCr_eq_self_iff diff).mp hmap, by omega⟩
    · have hpos : 0 < p.length := List.length_pos_iff.mpr hend.1
      have htake : p.take (maxMutantDiffChars -
          (unlines ((diff.map stripCr).map stripCr)).length) ≠ [] := by
        intro hnil
        have := congrArg List.length hnil
        rw [List.length_take, List.length_nil] at this
        omega
      rw [List.take_append, List.take_of_length_le (by omega),
        lines_unlines_append (hstrip _ (hstrip diff hline)),
        lines_line (fun hmem => hp (List.mem_of_mem_take hmem)) htake] at h
      have hlen := congrArg List.length h
      simp only [List.length_append, List.length_map, List.length_singleton] at hlen
      omega
  · intro h
    have hmap : diff.map stripCr = diff := (map_stripCr_eq_self_iff diff).mpr h.1
    rw [hmap, hmap, ← h.2, List.take_left, lines_unlines hline, hmap]

end Jitgen
