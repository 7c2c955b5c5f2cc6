import Jitgen.Report.Escape

/-!
# Control stripping

A text is cut into characters that are kept and controls, and stripping removes exactly the
controls. A control is unterminated only at the end of the text.
-/

namespace Jitgen

open Text

namespace Control

def IsFinal (c : Char) : Prop := 0x40 ≤ c.toNat ∧ c.toNat ≤ 0x7E

instance (c : Char) : Decidable (IsFinal c) := inferInstanceAs (Decidable (_ ∧ _))

/-- The body of a CSI sequence, in front of the given rest. -/
inductive CsiBody : Text → Text → Prop
  | final {c : Char} (rest : Text) : IsFinal c → CsiBody [c] rest
  | param {c : Char} {body rest : Text} :
      ¬ IsFinal c → CsiBody body rest → CsiBody (c :: body) rest
  | unterminated : CsiBody [] []

/-- The body of an OSC string, in front of the given rest. -/
inductive OscBody : Text → Text → Prop
  | bel (rest : Text) : OscBody [bel] rest
  | terminator (rest : Text) : OscBody [esc, '\\'] rest
  | aborted {rest : Text} : rest.head? ≠ some '\\' → OscBody [esc] rest
  | param {c : Char} {body rest : Text} :
      c ≠ bel → c ≠ esc → OscBody body rest → OscBody (c :: body) rest
  | unterminated : OscBody [] []

/-- A control, in front of the given rest. -/
inductive Sequence : Text → Text → Prop
  | single {c : Char} (rest : Text) :
      isStrippable c = true → c ≠ esc → c ≠ csi → Sequence [c] rest
  | csi {body rest : Text} : CsiBody body rest → Sequence (csi :: body) rest
  | escCsi {body rest : Text} : CsiBody body rest → Sequence (esc :: '[' :: body) rest
  | escOsc {body rest : Text} : OscBody body rest → Sequence (esc :: ']' :: body) rest
  | escChar {c : Char} (rest : Text) : c ≠ '[' → c ≠ ']' → Sequence [esc, c] rest
  | escEnd : Sequence [esc] []

/-- The second text is the first one without its controls. -/
inductive Stripped : Text → Text → Prop
  | nil : Stripped [] []
  | keep {c : Char} {s t : Text} :
      isStrippable c = false → Stripped s t → Stripped (c :: s) (c :: t)
  | drop {control s t : Text} :
      Sequence control s → Stripped s t → Stripped (control ++ s) t

end Control

open Control

section

variable {body rest control s t : Text}

private theorem consumeCsiBody_append (h : CsiBody body rest) :
    consumeCsiBody (body ++ rest) = rest := by
  induction h with
  | final rest hc => exact if_pos hc
  | param hc _ ih => exact (if_neg hc).trans ih
  | unterminated => rfl

private theorem exists_csiBody (s : Text) :
    ∃ body, CsiBody body (consumeCsiBody s) ∧ s = body ++ consumeCsiBody s := by
  induction s with
  | nil => exact ⟨[], .unterminated, rfl⟩
  | cons c cs ih =>
    by_cases hc : IsFinal c
    · have hrest : consumeCsiBody (c :: cs) = cs := if_pos hc
      rw [hrest]
      exact ⟨[c], .final cs hc, rfl⟩
    · have hrest : consumeCsiBody (c :: cs) = consumeCsiBody cs := if_neg hc
      rw [hrest]
      have ⟨body, hbody, hsplit⟩ := ih
      exact ⟨c :: body, .param hc hbody, congrArg (c :: ·) hsplit⟩

private theorem consumeOscBody_append (h : OscBody body rest) :
    consumeOscBody (body ++ rest) = rest := by
  induction h with
  | bel rest => exact if_pos rfl
  | terminator rest => rfl
  | aborted hhead => exact if_neg hhead
  | param hbel hesc _ ih => exact ((if_neg hbel).trans (if_neg hesc)).trans ih
  | unterminated => rfl

private theorem exists_oscBody (s : Text) :
    ∃ body, OscBody body (consumeOscBody s) ∧ s = body ++ consumeOscBody s := by
  induction s with
  | nil => exact ⟨[], .unterminated, rfl⟩
  | cons c cs ih =>
    rw [consumeOscBody]
    by_cases hbel : c = bel
    · rw [if_pos hbel, hbel]
      exact ⟨[bel], .bel cs, rfl⟩
    rw [if_neg hbel]
    by_cases hesc : c = esc
    · rw [if_pos hesc, hesc]
      by_cases hhead : cs.head? = some '\\'
      · have hcs : cs = '\\' :: cs.tail := List.eq_cons_of_mem_head? hhead
        rw [if_pos hhead]
        exact ⟨[esc, '\\'], .terminator cs.tail, congrArg (esc :: ·) hcs⟩
      · rw [if_neg hhead]
        exact ⟨[esc], .aborted hhead, rfl⟩
    · rw [if_neg hesc]
      obtain ⟨body, hbody, hsplit⟩ := ih
      exact ⟨c :: body, .param hbel hesc hbody, congrArg (c :: ·) hsplit⟩

private theorem stripControls_keep {c : Char} (hc : isStrippable c = false) (s : Text) :
    stripControls (c :: s) = c :: stripControls s := by
  have hesc : c ≠ esc := fun heq => absurd (heq ▸ hc) (by decide)
  have hcsi : c ≠ csi := fun heq => absurd (heq ▸ hc) (by decide)
  rw [stripControls_cons, if_neg hesc, if_neg hcsi]
  split_ifs with hline hdrop
  · rfl
  · exact absurd hdrop (by simp [hc])
  · rfl

private theorem stripControls_escape (s : Text) :
    stripControls (esc :: s) = stripControls (consumeEscape s) := by
  rw [stripControls_cons, if_pos rfl]

private theorem stripControls_csi (s : Text) :
    stripControls (csi :: s) = stripControls (consumeCsiBody s) := by
  rw [stripControls_cons, if_neg (by decide), if_pos rfl]

/-- Nothing of a control is kept. -/
private theorem stripControls_sequence (h : Sequence control rest) :
    stripControls (control ++ rest) = stripControls rest := by
  cases h with
  | @single c rest hc hesc hcsi =>
    have hline : ¬ (c = '\n' ∨ c = '\t') := by
      intro h
      rcases h with rfl | rfl <;> exact absurd hc (by decide)
    rw [List.singleton_append, stripControls_cons, if_neg hesc, if_neg hcsi, if_neg hline,
      if_pos hc]
  | csi hbody => rw [List.cons_append, stripControls_csi, consumeCsiBody_append hbody]
  | escCsi hbody =>
    have hrest := consumeCsiBody_append hbody
    rw [List.cons_append, List.cons_append, stripControls_escape]
    exact congrArg stripControls hrest
  | escOsc hbody =>
    have hrest := consumeOscBody_append hbody
    rw [List.cons_append, List.cons_append, stripControls_escape]
    exact congrArg stripControls hrest
  | escChar rest hopen hclose =>
    have hrest : consumeEscape (_ :: rest) = rest := (if_neg hopen).trans (if_neg hclose)
    exact (stripControls_escape _).trans (congrArg stripControls hrest)
  | escEnd => exact stripControls_escape []

private theorem exists_escape (s : Text) :
    ∃ body, Sequence (esc :: body) (consumeEscape s) ∧ s = body ++ consumeEscape s := by
  cases s with
  | nil => exact ⟨[], .escEnd, rfl⟩
  | cons c cs =>
    rw [consumeEscape]
    by_cases hopen : c = '['
    · obtain ⟨body, hbody, hsplit⟩ := exists_csiBody cs
      rw [if_pos hopen, hopen]
      exact ⟨'[' :: body, .escCsi hbody, congrArg ('[' :: ·) hsplit⟩
    rw [if_neg hopen]
    by_cases hclose : c = ']'
    · obtain ⟨body, hbody, hsplit⟩ := exists_oscBody cs
      rw [if_pos hclose, hclose]
      exact ⟨']' :: body, .escOsc hbody, congrArg (']' :: ·) hsplit⟩
    · rw [if_neg hclose]
      exact ⟨[c], .escChar cs hopen hclose, rfl⟩

private theorem exists_sequence {c : Char} (hc : isStrippable c = true) (s : Text) :
    ∃ control rest, Sequence (c :: control) rest ∧ s = control ++ rest := by
  by_cases hesc : c = esc
  · have ⟨body, hbody, hsplit⟩ := exists_escape s
    rw [hesc]
    exact ⟨body, _, hbody, hsplit⟩
  by_cases hcsi : c = csi
  · have ⟨body, hbody, hsplit⟩ := exists_csiBody s
    rw [hcsi]
    exact ⟨body, _, .csi hbody, hsplit⟩
  · exact ⟨[], s, .single s hc hesc hcsi, rfl⟩

private theorem exists_stripped (s : Text) : ∃ t, Stripped s t := by
  induction hlen : s.length using Nat.strong_induction_on generalizing s with
  | _ n ih =>
    cases s with
    | nil => exact ⟨[], .nil⟩
    | cons c s =>
      rw [List.length_cons] at hlen
      cases hc : isStrippable c with
      | false =>
        have ⟨t, ht⟩ := ih s.length (by omega) s rfl
        exact ⟨c :: t, .keep hc ht⟩
      | true =>
        have ⟨control, rest, hcontrol, hsplit⟩ := exists_sequence hc s
        have hrest : rest.length ≤ s.length := by simp [hsplit]
        have ⟨t, ht⟩ := ih rest.length (by omega) rest rfl
        rw [hsplit]
        exact ⟨t, .drop hcontrol ht⟩

theorem stripped_iff (s t : Text) : Stripped s t ↔ t = stripControls s := by
  have hunique : ∀ {s t}, Stripped s t → t = stripControls s := by
    intro s t h
    induction h with
    | nil => rfl
    | keep hc _ ih => rw [stripControls_keep hc, ih]
    | drop hcontrol _ ih => rw [stripControls_sequence hcontrol, ih]
  constructor
  · exact hunique
  · intro h
    have ⟨t', ht'⟩ := exists_stripped s
    rw [h, ← hunique ht']
    exact ht'

end

/-- Neither an escape, nor the CSI introducer, nor any other character that is dropped. -/
def Inert (c : Char) : Prop := c ≠ esc ∧ c ≠ csi ∧ isStrippable c = false

private theorem inert_iff (c : Char) : Inert c ↔ isStrippable c = false := by
  constructor
  · exact fun h => h.2.2
  · intro h
    have hesc : c ≠ esc := fun heq => absurd (heq ▸ h) (by decide)
    have hcsi : c ≠ csi := fun heq => absurd (heq ▸ h) (by decide)
    exact ⟨hesc, hcsi, h⟩

private theorem inert_of_mem_stripControls {s : Text} {c : Char} (h : c ∈ stripControls s) :
    Inert c :=
  (inert_iff c).mpr (of_mem_stripFrom h).2

theorem stripFrom_sublist (st : StripState) (s : Text) : (stripFrom st s).Sublist s := by
  induction s generalizing st with
  | nil => exact List.Sublist.refl []
  | cons c s ih =>
    rw [stripFrom]
    cases hkept : (stripStep st c).1 with
    | none => exact (ih _).cons c
    | some d =>
      have hd : d = c := (of_mem_stripStep hkept).1
      rw [hd]
      exact (ih _).cons_cons c

private theorem stripControls_idempotent (s : Text) :
    stripControls (stripControls s) = stripControls s := by
  apply (stripControls_eq_self_iff _).mpr
  intro c hc
  exact (inert_of_mem_stripControls hc).2.2

/-- A text within `max` bytes is kept whole. A longer one is cut between two characters, as late as
the marker behind it allows, and where the marker does not fit it is cut itself. -/
inductive CutTo (max : Nat) (s : Text) : Text → Prop
  | whole : utf8Len s ≤ max → CutTo max s s
  | marked {kept : Text} :
      max < utf8Len s → kept <+: s → utf8Len (kept ++ truncationMarker) ≤ max →
      (∀ t, t <+: s → utf8Len (t ++ truncationMarker) ≤ max → t <+: kept) →
      CutTo max s (kept ++ truncationMarker)
  | marker {shown : Text} :
      max < utf8Len s → max < utf8Len truncationMarker → shown <+: truncationMarker →
      utf8Len shown ≤ max → (∀ t, t <+: truncationMarker → utf8Len t ≤ max → t <+: shown) →
      CutTo max s shown

theorem cutTo_cap (s : Text) (max : Nat) : CutTo max s (cap s max) := by
  unfold cap
  split_ifs with hfits hshort
  · exact .whole hfits
  · exact .marker (by omega) hshort (bytePrefix_isPrefix _ _) (utf8Len_bytePrefix_le _ _)
      fun _ ht hmax => bytePrefix_longest ht hmax
  · have hlen := utf8Len_bytePrefix_le (max - utf8Len truncationMarker) s
    apply CutTo.marked (by omega) (bytePrefix_isPrefix _ _)
    · rw [utf8Len_append]
      omega
    · intro t ht hmax
      rw [utf8Len_append] at hmax
      exact bytePrefix_longest ht (by omega)

theorem eq_cap_of_cutTo {s t : Text} {max : Nat} (h : CutTo max s t) : t = cap s max := by
  unfold cap
  cases h with
  | whole hfits => rw [if_pos hfits]
  | @marked kept hlong hkept hmax hlast =>
    rw [utf8Len_append] at hmax
    have hlen := utf8Len_bytePrefix_le (max - utf8Len truncationMarker) s
    have hfit : utf8Len
        (bytePrefix (max - utf8Len truncationMarker) s ++ truncationMarker) ≤ max := by
      rw [utf8Len_append]
      omega
    rw [if_neg (by omega), if_neg (by omega)]
    have hback := hlast _ (bytePrefix_isPrefix _ _) hfit
    rw [(bytePrefix_longest hkept (by omega)).eq_of_length_le hback.length_le]
  | marker hlong hshort hshown hmax hlast =>
    rw [if_neg (by omega), if_pos hshort]
    have hback := hlast _ (bytePrefix_isPrefix _ _) (utf8Len_bytePrefix_le _ _)
    exact (bytePrefix_longest hshown hmax).eq_of_length_le hback.length_le

theorem newline_notMem_sanitizeLine (s : Text) (max : Nat) : '\n' ∉ sanitizeLine s max := by
  intro h
  have ⟨c, _, hc⟩ := List.mem_map.mp h
  split_ifs at hc with hline
  · exact absurd hc (by decide)
  · exact hline (.inl hc)

private theorem tab_notMem_sanitizeLine (s : Text) (max : Nat) : '\t' ∉ sanitizeLine s max := by
  intro h
  have ⟨c, _, hc⟩ := List.mem_map.mp h
  split_ifs at hc with hline
  · exact absurd hc (by decide)
  · exact hline (.inr hc)

/-- What stripping, sanitizing and flattening leave of any text. -/
theorem control_stripping (s : Text) :
    (∀ c ∈ stripControls s, Inert c) ∧ (stripControls s).Sublist s ∧
      (stripControls s = s ↔ ∀ c ∈ s, Inert c) ∧
      stripControls (stripControls s) = stripControls s ∧
      ∀ max, (toUtf8 (sanitize s max)).length ≤ max ∧
        CutTo max (stripControls s) (sanitize s max) ∧
        '\n' ∉ sanitizeLine s max ∧ '\t' ∉ sanitizeLine s max := by
  have hself : stripControls s = s ↔ ∀ c ∈ s, Inert c := by
    simp only [inert_iff]
    exact stripControls_eq_self_iff s
  refine ⟨fun c => inert_of_mem_stripControls, stripFrom_sublist _ s, hself,
    stripControls_idempotent s, fun max => ⟨?_, cutTo_cap _ max, ?_, ?_⟩⟩
  · rw [length_toUtf8]
    exact utf8Len_cap_le _ max
  · exact newline_notMem_sanitizeLine s max
  · exact tab_notMem_sanitizeLine s max

end Jitgen
