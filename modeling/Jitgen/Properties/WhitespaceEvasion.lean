import Jitgen.Llm.Candidate

/-!
# Whitespace and the static gate

The copy without whitespace hides no spacing, but a needle with a space of its own is never in it.
-/

namespace Jitgen

open Text

/-- The second text is the first with whitespace inserted anywhere. -/
inductive Spaced : Text → Text → Prop
  | nil : Spaced [] []
  | keep (c : Char) {s s' : Text} (h : Spaced s s') : Spaced (c :: s) (c :: s')
  | insert {c : Char} {s s' : Text} (hc : isWhitespace c = true) (h : Spaced s s') :
      Spaced s (c :: s')

private theorem Spaced.utf8Len_le {s s' : Text} (h : Spaced s s') : utf8Len s ≤ utf8Len s' := by
  induction h with
  | nil => exact le_refl _
  | keep c _ ih =>
    simp only [utf8Len_cons]
    omega
  | insert _ _ ih =>
    simp only [utf8Len_cons]
    omega

private theorem isWhitespace_charToAsciiLower (c : Char) :
    isWhitespace (charToAsciiLower c) = isWhitespace c := by
  by_cases hupper : isAsciiUpper c = true
  · have hrange : 65 ≤ c.toNat ∧ c.toNat ≤ 90 := by
      simpa [isAsciiUpper, Char.le_def, UInt32.le_iff_toNat_le] using hupper
    have hascii : ∀ n < 128, isWhitespace (charToAsciiLower (Char.ofNat n)) =
        isWhitespace (Char.ofNat n) := by decide +kernel
    have hc := hascii c.toNat (by omega)
    rwa [Char.ofNat_toNat] at hc
  · rw [charToAsciiLower, if_neg hupper]

/-- The lowercased copy of a source without whitespace. -/
def collapse (s : Text) : Text := (toAsciiLower s).filter (!isWhitespace ·)

private theorem Spaced.collapse_eq {s s' : Text} (h : Spaced s s') : collapse s' = collapse s := by
  induction h with
  | nil => rfl
  | keep c _ ih =>
    simp only [collapse, toAsciiLower, List.map_cons, List.filter_cons] at ih ⊢
    rw [ih]
  | @insert c s s' hc _ ih =>
    have hspace : (!isWhitespace (charToAsciiLower c)) = false := by
      rw [isWhitespace_charToAsciiLower, hc]
      rfl
    rw [← ih]
    simp only [collapse, toAsciiLower, List.map_cons, List.filter_cons, hspace]
    rfl

private theorem flagged_iff {s : Text} (hlen : utf8Len s ≤ maxValidateBytes) :
    (validateCandidate s).ok = false ↔
      ∃ d ∈ dangerous, d.1 <:+: toAsciiLower s ∨ d.1 <:+: collapse s := by
  rw [← Bool.not_eq_true, validateCandidate_ok_iff]
  simp only [validateCandidate, bytePrefix_of_le hlen, List.map_eq_nil_iff, List.filter_eq_nil_iff,
    Bool.or_eq_true, hasSubstr_iff, not_forall, not_not, exists_prop, collapse]

private theorem collapsed_of_solid {d s : Text} (hd : ∀ c ∈ d, isWhitespace c = false)
    (h : d <:+: toAsciiLower s) : d <:+: collapse s := by
  have hself : d.filter (!isWhitespace ·) = d := by
    apply List.filter_eq_self.mpr
    intro c hc
    rw [hd c hc]
    rfl
  rw [← hself]
  exact h.filter _

private theorem not_collapsed_of_space {d s : Text} {c : Char} (hc : c ∈ d)
    (hspace : isWhitespace c = true) : ¬ d <:+: collapse s := by
  intro h
  have hmem := (List.mem_filter.mp (h.subset hc)).2
  rw [hspace] at hmem
  cases hmem

/-- A needle without whitespace of its own is in the collapsed source. -/
def HasSolidNeedle (s : Text) : Prop :=
  ∃ d ∈ dangerous, (∀ c ∈ d.1, isWhitespace c = false) ∧ d.1 <:+: collapse s

/-- A needle with whitespace of its own is in the source as it stands. -/
def HasSpacedNeedle (s : Text) : Prop :=
  ∃ d ∈ dangerous, (∃ c ∈ d.1, isWhitespace c = true) ∧ d.1 <:+: toAsciiLower s

private theorem flagged_iff_needles {s : Text} (hlen : utf8Len s ≤ maxValidateBytes) :
    (validateCandidate s).ok = false ↔ HasSolidNeedle s ∨ HasSpacedNeedle s := by
  rw [flagged_iff hlen]
  constructor
  · intro h
    obtain ⟨d, hd, hfound⟩ := h
    by_cases hsolid : ∀ c ∈ d.1, isWhitespace c = false
    · exact .inl ⟨d, hd, hsolid, hfound.elim (collapsed_of_solid hsolid) id⟩
    · simp only [not_forall, Bool.not_eq_false, exists_prop] at hsolid
      obtain ⟨c, hc, hspace⟩ := hsolid
      exact .inr ⟨d, hd, ⟨c, hc, hspace⟩, hfound.resolve_right (not_collapsed_of_space hc hspace)⟩
  · intro h
    rcases h with ⟨d, hd, -, hfound⟩ | ⟨d, hd, -, hfound⟩
    · exact ⟨d, hd, .inr hfound⟩
    · exact ⟨d, hd, .inl hfound⟩

/-- Two needles have a space. -/
theorem hasSpacedNeedle_iff (s : Text) : HasSpacedNeedle s ↔
    ("rm -rf" : Text) <:+: toAsciiLower s ∨ ("import socket" : Text) <:+: toAsciiLower s := by
  have hspaced : (dangerous.map Prod.fst).filter (·.any isWhitespace) =
      [("rm -rf" : Text), "import socket"] := by decide +kernel
  have hmem : ∀ d : Text, (∃ p ∈ dangerous, (∃ c ∈ p.1, isWhitespace c = true) ∧ p.1 = d) ↔
      d ∈ [("rm -rf" : Text), "import socket"] := by
    intro d
    rw [← hspaced, List.mem_filter, List.mem_map, List.any_eq_true]
    constructor
    · intro h
      obtain ⟨p, hp, hspace, heq⟩ := h
      exact ⟨⟨p, hp, heq⟩, heq ▸ hspace⟩
    · intro h
      obtain ⟨⟨p, hp, heq⟩, hspace⟩ := h
      exact ⟨p, hp, heq ▸ hspace, heq⟩
  constructor
  · intro h
    obtain ⟨p, hp, hspace, hfound⟩ := h
    have hd := (hmem p.1).mp ⟨p, hp, hspace, rfl⟩
    simp only [List.mem_cons, List.not_mem_nil, or_false] at hd
    rcases hd with heq | heq
    · exact .inl (heq ▸ hfound)
    · exact .inr (heq ▸ hfound)
  · intro h
    have hfind : ∀ d ∈ [("rm -rf" : Text), "import socket"], d <:+: toAsciiLower s →
        HasSpacedNeedle s := by
      intro d hd hfound
      obtain ⟨p, hp, hspace, heq⟩ := (hmem d).mpr hd
      exact ⟨p, hp, hspace, heq ▸ hfound⟩
    rcases h with h | h
    · exact hfind _ List.mem_cons_self h
    · exact hfind _ (List.mem_cons_of_mem _ List.mem_cons_self) h

/-- The source is flagged for needles with whitespace alone, and the insertions break them all. -/
def BreaksSpaced (s s' : Text) : Prop :=
  ¬ HasSolidNeedle s ∧ HasSpacedNeedle s ∧ ¬ HasSpacedNeedle s'

/-- Inserted whitespace leaves the verdict on a flagged source exactly if it does not break the
last needle with whitespace of its own. -/
theorem spacing_keeps_flag_iff {s s' : Text} (hspaced : Spaced s s')
    (hlen : utf8Len s' ≤ maxValidateBytes) :
    ((validateCandidate s).ok = false → (validateCandidate s').ok = false) ↔
      ¬ BreaksSpaced s s' := by
  have hsolid : HasSolidNeedle s' ↔ HasSolidNeedle s := by
    unfold HasSolidNeedle
    rw [hspaced.collapse_eq]
  rw [flagged_iff_needles hlen, flagged_iff_needles (le_trans hspaced.utf8Len_le hlen), hsolid]
  unfold BreaksSpaced
  tauto

/-- A second blank inside a call, where the needle has none. -/
theorem spaced_call_flagged : (validateCandidate "os . system(1)").ok = false :=
  (spacing_keeps_flag_iff
    (.keep 'o' (.keep 's' (.insert (by decide) (.keep '.' (.insert (by decide) (.keep 's'
      (.keep 'y' (.keep 's' (.keep 't' (.keep 'e' (.keep 'm' (.keep '(' (.keep '1' (.keep ')'
        .nil))))))))))))))
    (by decide)).mpr (fun h => h.1
      ⟨("os.system", "shell execution"), by decide, forall_mem_of_all (by decide), by decide⟩)
    (show (validateCandidate "os.system(1)").ok = false by decide)

/-- A second blank inside a shell command. -/
theorem doubled_blank_evades : ¬ ∀ s s' : Text, Spaced s s' → utf8Len s' ≤ maxValidateBytes →
    (validateCandidate s).ok = false → (validateCandidate s').ok = false := by
  intro h
  have hspaced : Spaced "rm -rf" "rm  -rf" :=
    .keep 'r' (.keep 'm' (.keep ' ' (.insert (by decide) (.keep '-' (.keep 'r' (.keep 'f' .nil))))))
  exact absurd (h _ _ hspaced (by decide) (by decide)) (by decide)

end Jitgen
