import Jitgen.Feedback.FencedBlocks
import Jitgen.Orchestrator.PatchApply
import Jitgen.Orchestrator.Doubles

/-!
# Mutants read back from their fenced blocks
-/

namespace Jitgen

open Text

/-- A mutant as a provider writes it: its path and the lines of its unified diff. -/
structure MutantBlock where
  path : Text
  diff : List Text
  path_line : '\n' ∉ path
  path_trimmed : trim path = path
  path_short : path.length ≤ maxPathChars
  diff_lines : ∀ l ∈ diff, '\n' ∉ l
  diff_starts : ∃ l rest, diff = l :: rest ∧
    (l.startsWith "@@" = true ∨ PatchApply.isFileHeader l = true)
  diff_short : (unlines diff).length ≤ maxMutantDiffChars

def fenceLine : Text := "```"

def MutantBlock.render (m : MutantBlock) : List Text :=
  fenceLine :: pathLine m.path :: (m.diff ++ [fenceLine])

def renderMutants (ms : List MutantBlock) : Text := unlines (ms.flatMap MutantBlock.render)

def Accepts (original diff : Text) : Prop :=
  ∃ result, PatchApply.applyUnifiedDiff original diff = .ok result

/-- The path and the diff that are read for a mutant are its own. -/
structure MutantBlock.ReadAs (m : MutantBlock) (path diff : Text) : Prop where
  path_eq : path = m.path
  lines_eq : lines diff = m.diff
  accepted : ∀ original, Accepts original (unlines m.diff) → Accepts original diff

/-- What the scanner leaves as it is, wherever it stands in the diff. -/
structure MutantBlock.Clean (m : MutantBlock) : Prop where
  named : m.path ≠ []
  no_fence : ∀ l ∈ m.diff, isFenceLine l = false
  no_cr : ∀ l ∈ m.diff, stripCr l = l

/-- Parts of a closing fenceLine that do not close a block. -/
def halfFences : List Text := ["`", "``"]

/-- Lines of a rendering, cut or not, that keep every mutant. -/
inductive Kept : List MutantBlock → List Text → Prop where
  | done : Kept [] []
  | block {m : MutantBlock} {ms : List MutantBlock} {rest : List Text} (hclean : m.Clean)
      (hend : endsPlain m.diff = true) (h : Kept ms rest) : Kept (m :: ms) (m.render ++ rest)
  | unclosed {m : MutantBlock} (hclean : m.Clean) (hend : endsPlain m.diff = true) :
      Kept [m] (fenceLine :: pathLine m.path :: m.diff)
  | half {m : MutantBlock} {p : Text} (hclean : m.Clean) (hp : p ∈ halfFences)
      (hfull : (unlines m.diff).length = maxMutantDiffChars) :
      Kept [m] (fenceLine :: pathLine m.path :: (m.diff ++ [p]))

def readMutants (n : Nat) (ls : List Text) : List (Text × Text) :=
  ((blocksFrom none ls).take n).filterMap parseMutantBlock

private theorem parseMutants_pairs [WordChars] (raw idPrefix : Text) :
    (parseMutants raw idPrefix).map (fun r => (r.path, r.diff)) =
      readMutants maxMutants (lines (bytePrefix maxRawBytes raw)) := by
  rw [parseMutants, readMutants, fencedBlocks]
  apply List.ext_getElem <;> simp

private theorem readMutants_nil (n : Nat) : readMutants n [] = [] := by
  simp [readMutants, blocksFrom]

private theorem parseMutantBlock_line {p : Text} (hp : '\n' ∉ p) :
    parseMutantBlock (blockBody [p]) = none := by
  have hjoin : blockBody [p] = trimEnd p := by simp [blockBody, join]
  have hline : '\n' ∉ trimEnd p := by
    intro h
    exact hp ((List.rdropWhile_prefix isWhitespace p).subset h)
  rw [hjoin, parseMutantBlock, lines, linesGo_tail hline]
  by_cases hnil : trimEnd p = []
  · simp [hnil]
  · have hblank : isBlank (join "\n" ([] : List Text)) = true := rfl
    simp only [List.nil_append, if_neg hnil, hblank, Bool.or_true, if_true]
    split <;> rfl

private theorem readMutants_line (n : Nat) (p : Text) : readMutants n [p] = [] := by
  have hnone : parseMutantBlock (blockBody []) = none := by decide
  rw [readMutants, blocksFrom]
  by_cases hp : isFenceLine p = true
  · cases n with
    | zero => rfl
    | succ n => simp [hp, blocksFrom, hnone]
  · simp [hp, blocksFrom]

private theorem readMutants_fence (n : Nat) (ls : List Text) :
    readMutants (n + 1) (fenceLine :: ls) =
      ((parseMutantBlock (blockBody (blockLines ls))).toList ++ readMutants n (afterBlock ls)) := by
  have hfence : isFenceLine fenceLine = true := by decide
  rw [readMutants, blocksFrom, if_pos hfence, blocksFrom_some, List.take_succ_cons,
    List.filterMap_cons, List.nil_append]
  cases parseMutantBlock (blockBody (blockLines ls)) <;> rfl

private theorem readMutants_fence_line (n : Nat) {p : Text} (hp : '\n' ∉ p) :
    readMutants n [fenceLine, p] = [] := by
  have hnone : parseMutantBlock (blockBody []) = none := by decide
  cases n with
  | zero => simp [readMutants]
  | succ n =>
    have hafter : afterBlock [p] = [] := by
      by_cases hf : isFenceLine p = true <;> simp [afterBlock, hf]
    rw [readMutants_fence, hafter, readMutants_nil]
    by_cases hf : isFenceLine p = true
    · simp [blockLines, hf, hnone]
    · simp [blockLines, hf, parseMutantBlock_line hp]

private theorem blockLines_pathLine (path : Text) (ls : List Text) :
    blockLines (pathLine path :: ls) = pathLine path :: blockLines ls := by
  simp [blockLines, pathLine_not_fence]

private theorem afterBlock_pathLine (path : Text) (ls : List Text) :
    afterBlock (pathLine path :: ls) = afterBlock ls := by
  simp [afterBlock, pathLine_not_fence]

namespace MutantBlock

variable (m : MutantBlock)

private theorem diff_head :
    ∃ c l rest, m.diff = (c :: l) :: rest ∧ isWhitespace c = false ∧ c ≠ '\x60' := by
  obtain ⟨l, rest, hdiff, hl⟩ := m.diff_starts
  have hhead : ∀ (c : Char) (pre : Text), l.startsWith (c :: pre) = true →
      ∃ t, l = c :: t := by
    intro c pre h
    obtain ⟨t, rfl⟩ := List.isPrefixOf_iff_prefix.mp h
    exact ⟨pre ++ t, rfl⟩
  have hcases : ∃ c ∈ ['@', '-', '+', 'd', 'i'], ∃ t, l = c :: t := by
    unfold PatchApply.isFileHeader at hl
    simp only [Bool.or_eq_true] at hl
    rcases hl with h | ((h | h) | h) | h
    · exact ⟨'@', by simp, hhead _ _ h⟩
    · exact ⟨'-', by simp, hhead _ _ h⟩
    · exact ⟨'+', by simp, hhead _ _ h⟩
    · exact ⟨'d', by simp, hhead _ _ h⟩
    · exact ⟨'i', by simp, hhead _ _ h⟩
  obtain ⟨c, hc, t, rfl⟩ := hcases
  have hplain : ∀ c ∈ ['@', '-', '+', 'd', 'i'], isWhitespace c = false ∧ c ≠ '\x60' := by
    simp only [List.forall_mem_cons, List.not_mem_nil, false_implies, implies_true]
    decide
  exact ⟨c, t, rest, hdiff, hplain c hc⟩

private theorem diff_ne_nil : m.diff ≠ [] := by
  obtain ⟨c, l, rest, hdiff, -⟩ := m.diff_head
  simp [hdiff]

private theorem parse_block (hnamed : m.path ≠ []) {ls : List Text}
    (hblank : ls.all isBlank = false) :
    parseMutantBlock (blockBody (pathLine m.path :: ls)) = some (m.path, blockDiff ls) := by
  rw [parseMutantBlock_pathLine m.path_line m.path_trimmed hnamed m.path_short, hblank]
  rfl

private theorem stripCr_pathLine (hnamed : m.path ≠ []) :
    stripCr (pathLine m.path) = pathLine m.path := by
  have htrim := ((trimmed_iff _).mp (trim_pathLine m.path_trimmed hnamed)).2
  rw [stripCr_eq_self_iff]
  intro hlast
  have := (trimEnd_eq_self_iff _).mp htrim _ hlast
  exact absurd this (by decide)

/-- Whatever is left of a diff begins with a visible line. -/
private theorem blockLines_not_blank {cut after : List Text} (h : CutOf cut (m.diff ++ after))
    (hne : cut ≠ []) : (blockLines cut).all isBlank = false := by
  obtain ⟨c, l, rest, hdiff, hc, htick⟩ := m.diff_head
  have hcr : c ≠ '\r' := by
    rintro rfl
    exact absurd hc (by decide)
  have hhead : ∃ t ls, cut = (c :: t) :: ls := by
    rw [hdiff] at h
    cases h with
    | done => exact absurd rfl hne
    | @part p _ _ hp hpre =>
      cases p with
      | nil => exact absurd rfl hp
      | cons d p =>
        obtain ⟨rfl, -⟩ := List.cons_prefix_cons.mp hpre
        exact ⟨p, [], rfl⟩
    | @line ls _ _ h =>
      rw [stripCr_cons hcr]
      exact ⟨stripCr l, ls, rfl⟩
  obtain ⟨t, ls, rfl⟩ := hhead
  have hfence : isFenceLine (c :: t) = false := by
    have htrim : trimStart (c :: t) = c :: t := by simp [trimStart, hc]
    have hpre : ("```" : Text) = '\x60' :: ['\x60', '\x60'] := by decide
    rw [isFenceLine, htrim, startsWith, hpre]
    simp [List.isPrefixOf, Ne.symm htick]
  simp [blockLines, hfence, isBlank, hc]

private theorem diff_not_blank : m.diff.all isBlank = false := by
  obtain ⟨c, l, rest, hdiff, hc, -⟩ := m.diff_head
  simp [hdiff, isBlank, hc]

private theorem accepted_of_lines {diff : Text} (hcr : ∀ l ∈ m.diff, stripCr l = l)
    (hlines : lines diff = m.diff) (original : Text) (h : Accepts original (unlines m.diff)) :
    Accepts original diff := by
  have hsame : lines (unlines m.diff) = lines diff := by
    rw [lines_unlines m.diff_lines, hlines, (map_stripCr_eq_self_iff _).mpr hcr]
  unfold Accepts PatchApply.applyUnifiedDiff at h ⊢
  rwa [← hsame]

end MutantBlock

private theorem halfFence_plain {p : Text} (hp : p ∈ halfFences) :
    '\n' ∉ p ∧ p ≠ [] ∧ trimEnd p = p ∧ isFenceLine p = false ∧ isBlank p = false := by
  revert p
  decide

private theorem blockLines_fence (ls rest : List Text) (hls : ∀ l ∈ ls, isFenceLine l = false) :
    blockLines (ls ++ fenceLine :: rest) = ls ∧ afterBlock (ls ++ fenceLine :: rest) = rest := by
  have hfence : isFenceLine fenceLine = true := by decide
  rw [blockLines_append hls, afterBlock_append hls]
  simp [blockLines, afterBlock, hfence]

private theorem blockLines_end (ls : List Text) (hls : ∀ l ∈ ls, isFenceLine l = false) :
    blockLines ls = ls ∧ afterBlock ls = [] := by
  have hlines := blockLines_append hls []
  have hafter := afterBlock_append hls []
  simpa [blockLines, afterBlock] using And.intro hlines hafter

private theorem MutantBlock.readAs_plain {m : MutantBlock} (hclean : m.Clean)
    (hend : endsPlain m.diff = true) : m.ReadAs m.path (blockDiff m.diff) := by
  have hlines : lines (blockDiff m.diff) = m.diff := by
    rw [blockDiff_plain m.diff_lines hclean.no_cr hend m.diff_short]
    exact lines_join_plain m.diff_lines hclean.no_cr hend
  exact ⟨rfl, hlines, m.accepted_of_lines hclean.no_cr hlines⟩

private theorem forall₂_of_kept {ms : List MutantBlock} {ls : List Text} (h : Kept ms ls) {n : Nat}
    (hn : ms.length ≤ n) :
    List.Forall₂ (fun r (m : MutantBlock) => m.ReadAs r.1 r.2) (readMutants n ls) ms := by
  induction h generalizing n with
  | done =>
    rw [readMutants_nil]
    exact .nil
  | @block m ms rest hclean hend _ ih =>
    obtain ⟨n, rfl⟩ : ∃ k, n = k + 1 := Nat.exists_eq_succ_of_ne_zero (by
      intro h0
      simp [h0] at hn)
    have hblock := blockLines_fence m.diff rest hclean.no_fence
    have hls : m.render ++ rest =
        fenceLine :: pathLine m.path :: (m.diff ++ fenceLine :: rest) := by
      simp [MutantBlock.render]
    rw [hls, readMutants_fence, blockLines_pathLine, afterBlock_pathLine, hblock.1, hblock.2,
      m.parse_block hclean.named m.diff_not_blank]
    exact .cons (m.readAs_plain hclean hend) (ih (Nat.le_of_succ_le_succ hn))
  | @unclosed m hclean hend =>
    obtain ⟨n, rfl⟩ : ∃ k, n = k + 1 := Nat.exists_eq_succ_of_ne_zero (by
      intro h0
      simp [h0] at hn)
    have hblock := blockLines_end m.diff hclean.no_fence
    rw [readMutants_fence, blockLines_pathLine, afterBlock_pathLine, hblock.1, hblock.2,
      m.parse_block hclean.named m.diff_not_blank, readMutants_nil]
    exact .cons (m.readAs_plain hclean hend) .nil
  | @half m p hclean hp hfull =>
    obtain ⟨n, rfl⟩ : ∃ k, n = k + 1 := Nat.exists_eq_succ_of_ne_zero (by
      intro h0
      simp [h0] at hn)
    obtain ⟨hline, hne, htrim, hfence, hblank⟩ := halfFence_plain hp
    have hfree : ∀ l ∈ m.diff ++ [p], isFenceLine l = false := by
      intro l hl
      rcases List.mem_append.mp hl with hl | hl
      · exact hclean.no_fence l hl
      · rwa [List.mem_singleton.mp hl]
    have hblock := blockLines_end _ hfree
    have hlines : lines (blockDiff (m.diff ++ [p])) = m.diff := by
      have := (lines_blockDiff_concat_iff m.diff_lines hline ⟨hne, htrim⟩ m.diff_short).mpr
        ⟨hclean.no_cr, hfull⟩
      rwa [(map_stripCr_eq_self_iff _).mpr hclean.no_cr] at this
    rw [readMutants_fence, blockLines_pathLine, afterBlock_pathLine, hblock.1, hblock.2,
      m.parse_block hclean.named (by simp [hblank]), readMutants_nil]
    exact .cons ⟨rfl, hlines, m.accepted_of_lines hclean.no_cr hlines⟩ .nil

private theorem part_of_fence {p : Text} (hne : p ≠ []) (hp : p <+: fenceLine) :
    p ∈ halfFences ∨ p = fenceLine := by
  have hmem : p ∈ fenceLine.inits := (List.mem_inits _ _).mpr hp
  have hinits : fenceLine.inits = [[], ("`" : Text), ("``" : Text), fenceLine] := by decide
  rw [hinits] at hmem
  simp only [List.mem_cons, List.not_mem_nil, or_false] at hmem
  rcases hmem with h | h | h | h
  · exact absurd h hne
  · exact .inl (by simp [halfFences, h])
  · exact .inl (by simp [halfFences, h])
  · exact .inr h

/-- Where the lines of a cut rendering stop in the block that they begin with. -/
private theorem blockLines_cut {cut ls after : List Text}
    (h : CutOf cut (ls ++ fenceLine :: after)) :
    (List.SublistForall₂ (· <+: ·) (blockLines cut) ls ∧
      (blockLines cut = ls → cut = ls ∨
        ∃ rest, cut = ls ++ fenceLine :: rest ∧ CutOf rest after)) ∨
      ∃ p ∈ halfFences, cut = ls.map stripCr ++ [p] ∧
        ∀ l ∈ ls.map stripCr, isFenceLine l = false := by
  have hfence : isFenceLine fenceLine = true := by decide
  induction ls generalizing cut with
  | nil =>
    cases h with
    | done => exact .inl ⟨.nil, fun _ => .inl rfl⟩
    | part _ hne hp =>
      rcases part_of_fence hne hp with hp | rfl
      · exact .inr ⟨_, hp, by simp⟩
      · exact .inl ⟨by simpa [blockLines, hfence] using .nil,
          fun _ => .inr ⟨[], rfl, .done after⟩⟩
    | @line rest _ _ h =>
      have hstrip : stripCr fenceLine = fenceLine := by decide
      rw [hstrip]
      exact .inl ⟨by simpa [blockLines, hfence] using .nil, fun _ => .inr ⟨rest, rfl, h⟩⟩
  | cons l ls ih =>
    cases h with
    | done => exact .inl ⟨.nil, fun h => by cases h⟩
    | @part p _ _ hne hp =>
      by_cases hpf : isFenceLine p = true
      · exact .inl ⟨by simpa [blockLines, hpf] using .nil, fun h => by simp [blockLines, hpf] at h⟩
      · refine .inl ⟨by simpa [blockLines, hpf] using .cons hp .nil, fun h => .inl ?_⟩
        simpa [blockLines, hpf] using h
    | @line rest _ _ h =>
      by_cases hlf : isFenceLine (stripCr l) = true
      · exact .inl ⟨by simpa [blockLines, hlf] using .nil, fun h => by simp [blockLines, hlf] at h⟩
      · have hcons : blockLines (stripCr l :: rest) = stripCr l :: blockLines rest := by
          simp [blockLines, hlf]
        rw [hcons]
        rcases ih h with ⟨hsub, hall⟩ | ⟨p, hp, hrest, hfree⟩
        · refine .inl ⟨.cons (stripCr_le l) hsub, fun heq => ?_⟩
          obtain ⟨hl, hls⟩ := List.cons.inj heq
          rw [hl]
          rcases hall hls with rfl | ⟨rest', rfl, hcut⟩
          · exact .inl rfl
          · exact .inr ⟨rest', rfl, hcut⟩
        · refine .inr ⟨p, hp, by simp [hrest], ?_⟩
          intro k hk
          rcases List.mem_cons.mp hk with rfl | hk
          · exact Bool.eq_false_iff.mpr hlf
          · exact hfree k hk

private theorem kept_of_read {ms : List MutantBlock} {ls : List Text}
    (hcut : CutOf ls (ms.flatMap MutantBlock.render)) {n : Nat}
    (hnamed : ∀ m ∈ ms, m.path ≠ [])
    (hread : (readMutants n ls).map (fun r => (r.1, lines r.2)) =
      ms.map fun m => (m.path, m.diff)) : Kept ms ls := by
  induction ms generalizing ls n with
  | nil =>
    cases hcut with
    | done => exact .done
  | cons m ms ih =>
    have hm := hnamed m (by simp)
    have hsome : ∀ {k : Nat} {ls : List Text}, readMutants k ls = [] →
        (readMutants k ls).map (fun r => (r.1, lines r.2)) ≠
          (m :: ms).map fun m => (m.path, m.diff) := by
      intro k ls hnil
      simp [hnil]
    have hshape : (m :: ms).flatMap MutantBlock.render = fenceLine :: pathLine m.path ::
        (m.diff ++ fenceLine :: ms.flatMap MutantBlock.render) := by
      simp [MutantBlock.render]
    rw [hshape] at hcut
    cases hcut with
    | done => exact absurd hread (hsome (readMutants_nil n))
    | part => exact absurd hread (hsome (readMutants_line n _))
    | @line rest _ _ hrest =>
      have hstrip : stripCr fenceLine = fenceLine := by decide
      rw [hstrip] at hread ⊢
      cases hrest with
      | done => exact absurd hread (hsome (readMutants_line n _))
      | part _ _ hp =>
        have hline := newline_notMem_pathLine m.path_line
        exact absurd hread (hsome (readMutants_fence_line n fun h => hline (hp.subset h)))
      | @line rest _ _ hrest =>
        rw [m.stripCr_pathLine hm] at hread ⊢
        by_cases hnil : rest = []
        · have hline := newline_notMem_pathLine m.path_line
          rw [hnil] at hread
          exact absurd hread (hsome (readMutants_fence_line n hline))
        cases n with
        | zero => exact absurd hread (hsome (by simp [readMutants]))
        | succ n =>
          rw [readMutants_fence, blockLines_pathLine, afterBlock_pathLine,
            m.parse_block hm (m.blockLines_not_blank hrest hnil)] at hread
          obtain ⟨hfirst, hothers⟩ := List.cons.inj hread
          have hlines : lines (blockDiff (blockLines rest)) = m.diff := (Prod.mk.inj hfirst).2
          have hlast : afterBlock rest = [] → ms = [] := by
            intro hafter
            rw [hafter, readMutants_nil] at hothers
            simpa using hothers.symm
          rcases blockLines_cut hrest with ⟨hsub, hall⟩ | ⟨p, hp, rfl, hfree⟩
          · obtain ⟨hkept, hend, hcr⟩ :=
              kept_of_lines_blockDiff hsub m.diff_ne_nil m.diff_lines hlines
            have hclean : m.Clean := ⟨hm, hkept ▸ blockLines_free rest, hcr⟩
            rcases hall hkept with rfl | ⟨rest', rfl, hcut⟩
            · rw [hlast (blockLines_end _ hclean.no_fence).2]
              exact .unclosed hclean hend
            · rw [(blockLines_fence _ rest' hclean.no_fence).2] at hothers
              have hkept := ih hcut (fun k hk => hnamed k (by simp [hk])) hothers
              have := Kept.block hclean hend hkept
              simpa [MutantBlock.render] using this
          · obtain ⟨hline, hne, htrim, hfence, -⟩ := halfFence_plain hp
            have hfree' : ∀ l ∈ m.diff.map stripCr ++ [p], isFenceLine l = false := by
              intro l hl
              rcases List.mem_append.mp hl with hl | hl
              · exact hfree l hl
              · rwa [List.mem_singleton.mp hl]
            have hblock := blockLines_end _ hfree'
            rw [hblock.1] at hlines
            obtain ⟨hcr, hfull⟩ :=
              (lines_blockDiff_concat_iff m.diff_lines hline ⟨hne, htrim⟩ m.diff_short).mp hlines
            have hmap := (map_stripCr_eq_self_iff _).mpr hcr
            rw [hmap] at hfree hblock ⊢
            rw [hlast (by rw [hmap]; exact hblock.2)]
            exact .half ⟨hm, hfree, hcr⟩ hp hfull

private theorem pairs_of_readAs {read : List (Text × Text)} {ms : List MutantBlock}
    (h : List.Forall₂ (fun r (m : MutantBlock) => m.ReadAs r.1 r.2) read ms) :
    read.map (fun r => (r.1, lines r.2)) = ms.map fun m => (m.path, m.diff) := by
  induction h with
  | nil => rfl
  | cons hread _ ih =>
    rw [List.map_cons, List.map_cons, ih, hread.path_eq, hread.lines_eq]

private theorem named_of_pairs {n : Nat} {ls : List Text} {ms : List MutantBlock}
    (h : (readMutants n ls).map (fun r => (r.1, lines r.2)) = ms.map fun m => (m.path, m.diff)) :
    ∀ m ∈ ms, m.path ≠ [] := by
  intro m hm
  have hmem : (m.path, m.diff) ∈ (readMutants n ls).map fun r => (r.1, lines r.2) := by
    rw [h]
    exact List.mem_map_of_mem hm
  obtain ⟨r, hr, heq⟩ := List.mem_map.mp hmem
  obtain ⟨block, -, hparse⟩ := List.mem_filterMap.mp hr
  rw [← (Prod.mk.inj heq).1]
  exact parseMutantBlock_named hparse

private theorem newline_notMem_render (ms : List MutantBlock) :
    ∀ l ∈ ms.flatMap MutantBlock.render, '\n' ∉ l := by
  have hfence : '\n' ∉ fenceLine := by decide
  intro l hl
  obtain ⟨m, -, hl⟩ := List.mem_flatMap.mp hl
  simp only [MutantBlock.render, List.mem_cons, List.mem_append, List.not_mem_nil, or_false] at hl
  rcases hl with rfl | rfl | hl | rfl
  · exact hfence
  · exact newline_notMem_pathLine m.path_line
  · exact m.diff_lines l hl
  · exact hfence

/-- Mutants are read back with their paths and lines exactly when the rendering keeps them. -/
theorem parseMutants_faithful_iff [WordChars] (ms : List MutantBlock) (hms : ms.length ≤ maxMutants)
    (idPrefix : Text) :
    List.Forall₂ (fun r (m : MutantBlock) => m.ReadAs r.path r.diff)
        (parseMutants (renderMutants ms) idPrefix) ms ↔
      Kept ms (lines (bytePrefix maxRawBytes (renderMutants ms))) := by
  have hforall : List.Forall₂ (fun r (m : MutantBlock) => m.ReadAs r.path r.diff)
        (parseMutants (renderMutants ms) idPrefix) ms ↔
      List.Forall₂ (fun r (m : MutantBlock) => m.ReadAs r.1 r.2)
        (readMutants maxMutants (lines (bytePrefix maxRawBytes (renderMutants ms)))) ms := by
    rw [← parseMutants_pairs (renderMutants ms) idPrefix, List.forall₂_map_left_iff]
  rw [hforall]
  constructor
  · intro h
    have hread := pairs_of_readAs h
    have hpre := bytePrefix_isPrefix maxRawBytes (renderMutants ms)
    have hcut := cutOf_lines (newline_notMem_render ms) hpre
    exact kept_of_read hcut (named_of_pairs hread) hread
  · exact fun h => forall₂_of_kept h hms

/-- A rendering that is not cut keeps the clean mutants whose diffs end in a visible character. -/
private theorem kept_whole_iff (ms : List MutantBlock) :
    Kept ms ((ms.flatMap MutantBlock.render).map stripCr) ↔
      ∀ m ∈ ms, m.Clean ∧ endsPlain m.diff = true := by
  have hfence : stripCr fenceLine = fenceLine := by decide
  constructor
  · intro h
    generalize hls : (ms.flatMap MutantBlock.render).map stripCr = ls at h
    induction h with
    | done => simp
    | block hclean hend _ ih =>
      rw [List.flatMap_cons, List.map_append] at hls
      have hrest := (List.append_inj hls (by simp)).2
      rw [List.forall_mem_cons]
      exact ⟨⟨hclean, hend⟩, ih hrest⟩
    | unclosed =>
      have hlen := congrArg List.length hls
      simp [MutantBlock.render] at hlen
    | half _ hp =>
      simp only [MutantBlock.render, List.flatMap_cons, List.flatMap_nil, List.append_nil,
        List.map_cons, List.map_append, List.map_nil, hfence, List.cons.injEq, true_and] at hls
      obtain ⟨-, hp'⟩ := List.append_inj hls.2 (by simp)
      obtain rfl := List.singleton_inj.mp hp'
      exact absurd hp (by decide)
  · intro h
    induction ms with
    | nil => exact .done
    | cons m ms ih =>
      obtain ⟨hclean, hend⟩ := h m (by simp)
      have hmap : m.render.map stripCr = m.render := by
        rw [MutantBlock.render, List.map_cons, List.map_cons, List.map_append, List.map_singleton,
          hfence, m.stripCr_pathLine hclean.named, (map_stripCr_eq_self_iff _).mpr hclean.no_cr]
      rw [List.flatMap_cons, List.map_append, hmap]
      exact .block hclean hend (ih fun k hk => h k (by simp [hk]))

private theorem kept_of_fits {ms : List MutantBlock}
    (hfits : utf8Len (renderMutants ms) ≤ maxRawBytes) :
    Kept ms (lines (bytePrefix maxRawBytes (renderMutants ms))) ↔
      ∀ m ∈ ms, m.Clean ∧ endsPlain m.diff = true := by
  rw [bytePrefix_of_le hfits, renderMutants, lines_unlines (newline_notMem_render ms)]
  exact kept_whole_iff ms

/-- A mutant that replaces one line. -/
def replacedLine : MutantBlock where
  path := "src/a.rs"
  diff := [("@@ -1 +1 @@" : Text), "-a", "+b"]
  path_line := by decide
  path_trimmed := by decide
  path_short := by decide
  diff_lines := by decide
  diff_starts := ⟨_, _, rfl, .inl (by decide)⟩
  diff_short := by decide

theorem replacedLine_read :
    List.Forall₂ (fun r (m : MutantBlock) => m.ReadAs r.path r.diff)
      (@parseMutants asciiWords (renderMutants [replacedLine]) "t0-r0") [replacedLine] := by
  have hclean : replacedLine.Clean := ⟨by decide, by decide, by decide⟩
  have hfits : utf8Len (renderMutants [replacedLine]) ≤ maxRawBytes := by decide
  apply (@parseMutants_faithful_iff asciiWords [replacedLine] (by decide) "t0-r0").mpr
  rw [kept_of_fits hfits]
  intro m hm
  rw [List.mem_singleton.mp hm]
  exact ⟨hclean, by decide⟩

/-- A mutant whose last context line is blank. -/
def blankContext : MutantBlock where
  path := "src/a.rs"
  diff := [("@@ -1,2 +1,2 @@" : Text), "-a", "+b", " "]
  path_line := by decide
  path_trimmed := by decide
  path_short := by decide
  diff_lines := by decide
  diff_starts := ⟨_, _, rfl, .inl (by decide)⟩
  diff_short := by decide

theorem blankContext_rejected :
    ∃ diff, (@parseMutants asciiWords (renderMutants [blankContext]) "t0-r0").map
        (fun r => (r.path, r.diff)) = [(blankContext.path, diff)] ∧
      lines diff ≠ blankContext.diff ∧
      Accepts "a\n\n" (unlines blankContext.diff) ∧ ¬ Accepts "a\n\n" diff := by
  refine ⟨"@@ -1,2 +1,2 @@\n-a\n+b", ?_, by decide, ⟨"b\n\n", by decide +kernel⟩, ?_⟩
  · rw [@parseMutants_pairs asciiWords]
    decide +kernel
  · intro h
    obtain ⟨result, h⟩ := h
    have hrejected : PatchApply.applyUnifiedDiff "a\n\n" "@@ -1,2 +1,2 @@\n-a\n+b" =
        .error (PatchApply.malformed "hunk truncated") := by decide +kernel
    rw [hrejected] at h
    cases h

end Jitgen
