import Jitgen.Adapters.Symbols
import Jitgen.Core.Change

/-!
# Which changed lines the targets cover
-/

namespace Jitgen

open Text

/-- What the search has seen lies in the tree and contains the row. -/
def Seen (root : SyntaxNode) (row : Nat) (l : Located) : Prop :=
  containsRow row l.node = true ∧ l.node.Within root

private theorem seen_push {root : SyntaxNode} {row : Nat} {l : Located} {stack : List Located}
    (hl : Seen root row l) (hstack : ∀ k ∈ stack, Seen root row k) :
    ∀ k ∈ push row l.node stack, Seen root row k := by
  intro k hk
  rcases List.mem_append.mp hk with hk | hk
  · obtain ⟨n, hn, rfl⟩ := List.mem_map.mp hk
    obtain ⟨hmem, hrow⟩ := List.mem_filter.mp (List.mem_reverse.mp hn)
    obtain ⟨⟨field, m⟩, hchild, rfl⟩ := List.mem_map.mp hmem
    exact ⟨hrow, .child hl.2 hchild⟩
  · exact hstack k hk

private theorem better_eq {kinds : List (Text × SymbolKind)} {best : Option (Located × SymbolKind)}
    {l : Located} {b : Located × SymbolKind} (h : better kinds best l = some b) :
    best = some b ∨ b.1 = l := by
  unfold better at h
  split at h
  · exact .inl h
  · split at h
    · cases h
      exact .inr rfl
    · split at h
      · cases h
        exact .inr rfl
      · exact .inl h

private theorem search_seen {root : SyntaxNode} {row : Nat} {kinds : List (Text × SymbolKind)}
    {budget : Nat} {stack : List Located} {best : Option (Located × SymbolKind)}
    {b : Located × SymbolKind} (hstack : ∀ l ∈ stack, Seen root row l)
    (hbest : ∀ b, best = some b → Seen root row b.1)
    (h : search kinds row budget stack best = some b) : Seen root row b.1 := by
  induction budget generalizing stack best with
  | zero => exact hbest b h
  | succ budget ih =>
    cases stack with
    | nil => exact hbest b h
    | cons l stack =>
      have hl : Seen root row l := hstack l (by simp)
      have hrest : ∀ k ∈ stack, Seen root row k := fun k hk => hstack k (by simp [hk])
      rw [search] at h
      split at h
      · exact hbest b h
      · apply ih (seen_push hl hrest) _ h
        intro c hc
        rcases better_eq hc with hc | hc
        · exact hbest c hc
        · rw [hc]
          exact hl

/-- The span of the innermost declaration around the first line of a hunk. -/
def declaration (root : SyntaxNode) (kinds : List (Text × SymbolKind)) (h : LineRange) :
    Option LineRange :=
  (enclosing root (h.start - 1) kinds).bind fun found => nodeSpan found.1.node

/-- A declaration that is found contains the first line of its hunk. -/
private theorem declaration_contains {root : SyntaxNode} {kinds : List (Text × SymbolKind)}
    {h d : LineRange} (hrows : ∀ n : SyntaxNode, n.Within root → n.endRow ≤ maxSourceBytes)
    (hd : declaration root kinds h = some d) : d.start ≤ h.start ∧ h.start ≤ d.end := by
  obtain ⟨⟨l, kind⟩, hfound, hspan⟩ := Option.bind_eq_some_iff.mp hd
  have hseen : Seen root (h.start - 1) l := by
    unfold enclosing at hfound
    split at hfound
    · rename_i hroot
      apply search_seen _ _ hfound
      · intro k hk
        rw [List.mem_singleton.mp hk]
        exact ⟨hroot, .root root⟩
      · intro b hb
        cases hb
    · cases hfound
  have hrow := hseen.1
  have hend := hrows _ hseen.2
  have hpos := h.start_pos
  unfold containsRow at hrow
  simp only [Bool.and_eq_true, decide_eq_true_eq] at hrow
  dsimp only at hspan
  unfold nodeSpan LineRange.new at hspan
  unfold maxSourceBytes at hend
  rw [Nat.mod_eq_of_lt (by omega), Nat.mod_eq_of_lt (by omega)] at hspan
  split at hspan
  · cases hspan
    dsimp only
    omega
  · cases hspan

variable (root : SyntaxNode) (kinds : List (Text × SymbolKind)) (source : Bytes) (path : Text)
  (adapter : AdapterId) (capped : List LineRange)

/-- One hunk adds the span of its declaration, or is left over. -/
private theorem extractHunk_spans {st : Extraction} (hpaths : ∀ t ∈ st.targets, t.path = path)
    (h : LineRange) :
    let st' := extractHunk root kinds source path adapter capped st h
    (∀ t ∈ st'.targets, t.path = path) ∧
      (∀ s, s ∈ st'.targets.map Target.span ↔
        s ∈ st.targets.map Target.span ∨ declaration root kinds h = some s) ∧
      st'.unmatched = st.unmatched ++ if declaration root kinds h = none then [h] else [] := by
  intro st'
  cases hfound : enclosing root (h.start - 1) kinds with
  | none =>
    have hnone : declaration root kinds h = none := by simp [declaration, hfound]
    simp [st', extractHunk, hfound, hnone]
    exact hpaths
  | some found =>
    obtain ⟨l, kind⟩ := found
    have hdecl : declaration root kinds h = nodeSpan l.node := by simp [declaration, hfound]
    cases hspan : nodeSpan l.node with
    | none =>
      simp [st', extractHunk, hfound, hdecl, hspan]
      exact hpaths
    | some span =>
      by_cases hold : st.targets.any fun t => t.path = path ∧ t.span = span
      · have hmem : span ∈ st.targets.map Target.span := by
          obtain ⟨t, ht, hboth⟩ := List.any_eq_true.mp hold
          have := of_decide_eq_true hboth
          exact List.mem_map.mpr ⟨t, ht, this.2⟩
        have hst : st' = st := by simp only [st', extractHunk, hfound, hspan, hold, if_true]
        rw [hst, hdecl, hspan]
        refine ⟨hpaths, ?_, by simp⟩
        intro s
        constructor
        · exact .inl
        · rintro (hs | hs)
          · exact hs
          · cases hs
            exact hmem
      · simp only [st', extractHunk, hfound, hspan, hold, hdecl]
        refine ⟨?_, ?_, by simp⟩
        · intro t ht
          rcases List.mem_append.mp ht with ht | ht
          · exact hpaths t ht
          · rw [List.mem_singleton.mp ht]
        · intro s
          simp [eq_comm]

private theorem foldl_spans (hunks : List LineRange) {st : Extraction}
    (hpaths : ∀ t ∈ st.targets, t.path = path) :
    let st' := hunks.foldl (extractHunk root kinds source path adapter capped) st
    (∀ s, s ∈ st'.targets.map Target.span ↔
      s ∈ st.targets.map Target.span ∨ ∃ h ∈ hunks, declaration root kinds h = some s) ∧
    ∀ h, h ∈ st'.unmatched ↔ h ∈ st.unmatched ∨ h ∈ hunks ∧ declaration root kinds h = none := by
  induction hunks generalizing st with
  | nil => simp
  | cons h hunks ih =>
    obtain ⟨hpaths', hspans, hunmatched⟩ :=
      extractHunk_spans root kinds source path adapter capped hpaths h
    obtain ⟨ihspans, ihunmatched⟩ := ih hpaths'
    constructor
    · intro s
      rw [List.foldl_cons, ihspans s, hspans s, or_assoc]
      simp
    · intro k
      rw [List.foldl_cons, ihunmatched k, hunmatched]
      by_cases hk : k = h <;> by_cases hd : declaration root kinds h = none <;> simp_all

private theorem fallbackHunks_spans (path : Text) (adapter : AdapterId) (hunks : List LineRange)
    (seq : Nat) : (fallbackHunks path adapter hunks seq).1.map Target.span = hunks := by
  unfold fallbackHunks
  apply List.ext_getElem <;> simp

/-- What stands for a hunk among the targets: its declaration, or the hunk itself. -/
def shown (root : SyntaxNode) (kinds : List (Text × SymbolKind)) (h : LineRange) : LineRange :=
  (declaration root kinds h).getD h

private theorem extractWithGrammar_spans [TreeSitter] {lang : Lang} {source : Bytes}
    {root : SyntaxNode} (htree : grammarTree lang source = some root) (path : Text)
    (adapter : AdapterId) (hunks : List LineRange) (seq : Nat) :
    ∃ r, extractWithGrammar lang source path adapter hunks seq = some r ∧
      ∀ s, s ∈ r.1.map Target.span ↔
        (∃ h ∈ hunks.take maxHunks, shown root lang.symbolKinds h = s) ∨
          s ∈ hunks.drop maxHunks := by
  have hstart : ∀ t ∈ (⟨[], [], seq⟩ : Extraction).targets, t.path = path := by simp
  obtain ⟨hspans, hunmatched⟩ := foldl_spans root lang.symbolKinds source path adapter
    (hunks.take maxHunks) (hunks.take maxHunks) hstart
  unfold extractWithGrammar
  rw [htree]
  refine ⟨_, rfl, ?_⟩
  intro s
  rw [List.map_append, List.mem_append, hspans s, fallbackHunks_spans, List.mem_append,
    hunmatched s]
  constructor
  · rintro ((h | ⟨h, hh, hd⟩) | (h | ⟨hh, hd⟩) | h)
    · simp at h
    · exact .inl ⟨h, hh, by simp [shown, hd]⟩
    · simp at h
    · exact .inl ⟨s, hh, by simp [shown, hd]⟩
    · exact .inr h
  · rintro (⟨h, hh, hs⟩ | h)
    · cases hd : declaration root lang.symbolKinds h with
      | none =>
        have hself : h = s := by simpa [shown, hd] using hs
        rw [hself] at hh hd
        exact .inr (.inl (.inr ⟨hh, hd⟩))
      | some d =>
        have hself : d = s := by simpa [shown, hd] using hs
        rw [hself] at hd
        exact .inl (.inr ⟨h, hh, hd⟩)
    · exact .inr (.inr h)

/-- Every changed line of every hunk lies in the span of some target. -/
def Covered (hunks : List LineRange) (ts : List Target) : Prop :=
  ∀ h ∈ hunks, ∀ line, h.contains line = true → ∃ t ∈ ts, t.span.contains line = true

/-- A hunk that runs past the declaration at its first line does so within what stands for another
hunk. -/
def OverrunsShown (root : SyntaxNode) (kinds : List (Text × SymbolKind))
    (hunks : List LineRange) : Prop :=
  ∀ h ∈ hunks.take maxHunks, ∀ d, declaration root kinds h = some d →
    ∀ line, d.end < line → line ≤ h.end →
      (∃ k ∈ hunks.take maxHunks, (shown root kinds k).contains line = true) ∨
        ∃ k ∈ hunks.drop maxHunks, k.contains line = true

private theorem covered_iff_spans (hunks : List LineRange) (ts : List Target) :
    Covered hunks ts ↔ ∀ h ∈ hunks, ∀ line, h.contains line = true →
      ∃ s ∈ ts.map Target.span, s.contains line = true := by
  simp [Covered]

private theorem covered_of_spans {hunks : List LineRange} {ts : List Target}
    (h : ts.map Target.span = hunks) : Covered hunks ts := by
  rw [covered_iff_spans, h]
  exact fun k hk line hline => ⟨k, hk, hline⟩

/-- Spans that show the first hunks and keep the others cover all of them exactly if what runs past
a declaration is shown. -/
private theorem covered_iff_overrunsShown {root : SyntaxNode} {kinds : List (Text × SymbolKind)}
    {hunks : List LineRange} {ts : List Target}
    (hrows : ∀ n : SyntaxNode, n.Within root → n.endRow ≤ maxSourceBytes)
    (hspans : ∀ s, s ∈ ts.map Target.span ↔
      (∃ h ∈ hunks.take maxHunks, shown root kinds h = s) ∨ s ∈ hunks.drop maxHunks) :
    Covered hunks ts ↔ OverrunsShown root kinds hunks := by
  rw [covered_iff_spans]
  constructor
  · intro hcovered h hh d hd line hafter hline
    have hfirst := declaration_contains hrows hd
    have hin : h.contains line = true :=
      LineRange.contains_iff.mpr ⟨by omega, hline⟩
    obtain ⟨s, hs, hcontains⟩ := hcovered h (List.mem_of_mem_take hh) line hin
    rcases (hspans s).mp hs with ⟨k, hk, rfl⟩ | hs
    · exact .inl ⟨k, hk, hcontains⟩
    · exact .inr ⟨s, hs, hcontains⟩
  · intro hshown h hh line hline
    have hbounds := LineRange.contains_iff.mp hline
    rw [← List.take_append_drop maxHunks hunks] at hh
    rcases List.mem_append.mp hh with hh | hh
    · cases hd : declaration root kinds h with
      | none =>
        have hself : shown root kinds h = h := by simp [shown, hd]
        exact ⟨h, (hspans h).mpr (.inl ⟨h, hh, hself⟩), hline⟩
      | some d =>
        have hself : shown root kinds h = d := by simp [shown, hd]
        by_cases hafter : line ≤ d.end
        · have hfirst := declaration_contains hrows hd
          refine ⟨d, (hspans d).mpr (.inl ⟨h, hh, hself⟩), ?_⟩
          exact LineRange.contains_iff.mpr ⟨by omega, hafter⟩
        · rcases hshown h hh d hd line (by omega) hbounds.2 with
            ⟨k, hk, hcontains⟩ | ⟨k, hk, hcontains⟩
          · exact ⟨_, (hspans _).mpr (.inl ⟨k, hk, rfl⟩), hcontains⟩
          · exact ⟨k, (hspans k).mpr (.inr hk), hcontains⟩
    · exact ⟨h, (hspans h).mpr (.inr hh), hline⟩

/-- Every changed line is covered exactly if no hunk runs past the declaration at its first line
into lines that nothing else stands for. -/
theorem extractTargets_covers_iff [TreeSitter] (lang : Option Lang) (source : Bytes) (path : Text)
    (adapter : AdapterId) (hunks : List LineRange) (seq : Nat) :
    Covered hunks (extractTargets lang source path adapter hunks seq).1 ↔
      ∀ l root, lang = some l → grammarTree l source = some root →
        OverrunsShown root l.symbolKinds hunks := by
  by_cases hempty : hunks = []
  · subst hempty
    simp [Covered, OverrunsShown]
  have hisEmpty : hunks.isEmpty = false := by simpa using hempty
  unfold extractTargets
  rw [hisEmpty]
  cases hlang : lang with
  | none =>
    have hcovered := covered_of_spans (fallbackHunks_spans path adapter hunks seq)
    simpa using hcovered
  | some l =>
    cases htree : grammarTree l source with
    | none =>
      have hcovered := covered_of_spans (fallbackHunks_spans path adapter hunks seq)
      have hnone : extractWithGrammar l source path adapter hunks seq = none := by
        simp [extractWithGrammar, htree]
      simp only [Option.bind_some, hnone, Option.getD_none, Bool.false_eq_true, if_false]
      apply iff_of_true hcovered
      intro l' root hl' hroot
      cases hl'
      rw [htree] at hroot
      cases hroot
    | some root =>
      obtain ⟨r, hr, hspans⟩ := extractWithGrammar_spans htree path adapter hunks seq
      have hrows : ∀ n : SyntaxNode, n.Within root → n.endRow ≤ maxSourceBytes := by
        intro n hn
        unfold grammarTree at htree
        split at htree
        · cases htree
        · have := TreeSitter.rows_in_source htree hn
          omega
      simp only [Option.bind_some, hr, Option.getD_some, Bool.false_eq_true, if_false]
      rw [covered_iff_overrunsShown hrows hspans]
      constructor
      · intro hshown l' root' hl' hroot'
        cases hl'
        rw [htree] at hroot'
        cases hroot'
        exact hshown
      · exact fun hshown => hshown l root rfl htree

def twoFunctions : Bytes := toUtf8 "fn a() \x7b\n\x7d\nfn b() \x7b\n\x7d\n"

def nameNode (byte row : Nat) : SyntaxNode := .mk "identifier" row row byte (byte + 1) []

def firstFunction : SyntaxNode := .mk "function_item" 0 1 0 10 [(some "name", nameNode 3 0)]

def secondFunction : SyntaxNode := .mk "function_item" 2 3 11 21 [(some "name", nameNode 14 2)]

def twoFunctionsTree : SyntaxNode :=
  .mk "source_file" 0 4 0 22 [(none, firstFunction), (none, secondFunction)]

private theorem within_twoFunctions {n : SyntaxNode} (h : n.Within twoFunctionsTree) :
    n ∈ [twoFunctionsTree, firstFunction, secondFunction, nameNode 3 0, nameNode 14 2] := by
  generalize hroot : twoFunctionsTree = root at h
  induction h with
  | root => simp
  | child _ hn ih =>
    subst hroot
    have hm := ih rfl
    simp only [List.mem_cons, List.not_mem_nil, or_false] at hm
    rcases hm with rfl | rfl | rfl | rfl | rfl <;>
      simp [twoFunctionsTree, firstFunction, secondFunction, nameNode, SyntaxNode.children] at hn <;>
      grind [firstFunction, secondFunction, nameNode]

/-- A parser that knows one source. -/
abbrev twoFunctionsParser : TreeSitter where
  parse := fun _ source => if source = twoFunctions then some twoFunctionsTree else none
  rows_in_source := by
    intro lang source root n hparse hn
    split at hparse
    · rename_i hsource
      cases hparse
      have hrows : ∀ n ∈ [twoFunctionsTree, firstFunction, secondFunction, nameNode 3 0,
          nameNode 14 2], n.endRow ≤ twoFunctions.length := by decide
      rw [hsource]
      exact hrows n (within_twoFunctions hn)
    · cases hparse

/-- The lines of the second function are in no target. -/
theorem secondFunction_dropped :
    ¬ Covered [⟨1, 4, by decide, by decide⟩] (@extractTargets twoFunctionsParser (some .rust)
      twoFunctions "src/a.rs" "rust" [⟨1, 4, by decide, by decide⟩] 0).1 := by
  have hspans : (@extractTargets twoFunctionsParser (some .rust) twoFunctions "src/a.rs" "rust"
      [⟨1, 4, by decide, by decide⟩] 0).1.map Target.span = [⟨1, 2, by decide, by decide⟩] := by
    decide +kernel
  rw [covered_iff_spans, hspans]
  intro h
  obtain ⟨s, hs, hcontains⟩ := h _ (List.mem_singleton_self _) 3 (by decide)
  rw [List.mem_singleton.mp hs] at hcontains
  exact absurd hcontains (by decide)

end Jitgen
