import Jitgen.Framework.Text

/-!
# Blocks between markers

A renderer puts each untrusted body between an opening and a closing marker. A reader who trusts
the markers finds the rendered blocks and nothing else, provided that no body holds a marker.
-/

namespace Jitgen

section Occurrences

variable {α : Type} {needle s x y : List α} {a : α}

theorem prefix_append_cons (ha : a ∉ needle) : needle <+: x ++ a :: y ↔ needle <+: x := by
  induction x generalizing needle with
  | nil =>
    cases needle with
    | nil => simp
    | cons n needle =>
      have hn : n ≠ a := by
        rintro rfl
        simp at ha
      simp [List.cons_prefix_cons, hn]
  | cons b x ih =>
    cases needle with
    | nil => simp
    | cons n needle =>
      have htail : a ∉ needle := fun h => ha (by simp [h])
      rw [List.cons_append, List.cons_prefix_cons, List.cons_prefix_cons, ih htail]

theorem infix_append_cons (ha : a ∉ needle) :
    needle <:+: x ++ a :: y ↔ needle <:+: x ∨ needle <:+: y := by
  induction x with
  | nil =>
    have hpre := prefix_append_cons (x := []) (y := y) ha
    rw [List.nil_append] at hpre
    rw [List.nil_append, List.infix_cons_iff, hpre, List.prefix_nil, List.infix_nil]
  | cons b x ih =>
    have hpre := prefix_append_cons (x := b :: x) (y := y) ha
    rw [List.cons_append] at hpre ⊢
    rw [List.infix_cons_iff, List.infix_cons_iff, hpre, ih, or_assoc]

theorem not_infix_of_notMem (ha : a ∈ needle) (hs : a ∉ s) : ¬ needle <:+: s :=
  fun h => hs (h.subset ha)

theorem infix_of_concat (ha : needle.getLast? ≠ some a) (h : needle <:+: x ++ [a]) :
    needle <:+: x := by
  rcases List.infix_concat_iff.mp h with h | h
  · rcases List.suffix_concat_iff.mp h with rfl | ⟨t, rfl, -⟩
    · exact List.nil_infix
    · simp at ha
  · exact h

theorem infix_of_cons (ha : needle.head? ≠ some a) (h : needle <:+: a :: y) : needle <:+: y := by
  rcases List.infix_cons_iff.mp h with h | h
  · rcases List.prefix_cons_iff.mp h with rfl | ⟨t, rfl, -⟩
    · exact List.nil_infix
    · simp at ha
  · exact h

/-- Every occurrence of the needle is on one side of the barrier. -/
def Barrier (needle barrier : List α) : Prop :=
  ∀ x y, needle <:+: x ++ barrier ++ y → needle <:+: x ∨ needle <:+: y

theorem barrier_of_foreign {b c d : α} {mid : List α} (hlast : needle.getLast? ≠ some c)
    (ha : a ∉ needle) (hmid : ¬ needle <:+: mid) (hb : b ∉ needle)
    (hhead : needle.head? ≠ some d) : Barrier needle ([c, a] ++ mid ++ [b, d]) := by
  intro x y h
  have hsplit : x ++ ([c, a] ++ mid ++ [b, d]) ++ y = (x ++ [c]) ++ a :: (mid ++ b :: d :: y) := by
    simp
  rw [hsplit, infix_append_cons ha, infix_append_cons hb] at h
  rcases h with h | h | h
  · exact .inl (infix_of_concat hlast h)
  · exact absurd h hmid
  · exact .inr (infix_of_cons hhead h)

end Occurrences

namespace Text

/-- No occurrence of the pattern in `x ++ s` begins in `x`. -/
def Unmatched (pat x s : Text) : Prop := ∀ v, v <:+ x → v ≠ [] → ¬ pat <+: v ++ s

variable {pat repl needle : Text}

theorem unmatched_nil (s : Text) : Unmatched pat [] s := by
  intro v hv hne
  exact absurd (List.suffix_nil.mp hv) hne

theorem Unmatched.concat {x s : Text} {c : Char} (h : Unmatched pat x (c :: s))
    (hc : ¬ pat <+: c :: s) : Unmatched pat (x ++ [c]) s := by
  intro v hv hne
  rcases List.suffix_concat_iff.mp hv with rfl | ⟨t, rfl, ht⟩
  · exact absurd rfl hne
  · rw [List.append_assoc, List.singleton_append]
    by_cases htne : t = []
    · rw [htne]
      exact hc
    · exact h t ht htne

theorem Unmatched.not_infix {x s : Text} (h : Unmatched pat x s) (hne : pat ≠ []) :
    ¬ pat <:+: x := by
  intro hin
  obtain ⟨u, w, rfl⟩ := hin
  apply h (pat ++ w) ⟨u, by simp⟩ (by simp [hne])
  rw [List.append_assoc]
  exact List.prefix_append _ _

theorem not_infix_replaceGo (hne : pat ≠ []) (hb : Barrier pat repl) (skip : Nat) (s x : Text)
    (hskip : 0 < skip → x = []) (hx : Unmatched pat x s) :
    ¬ pat <:+: x ++ replaceGo pat repl skip s := by
  induction s generalizing skip x with
  | nil =>
    have hgo : replaceGo pat repl skip [] = [] := by
      cases skip <;> rfl
    rw [hgo, List.append_nil]
    exact hx.not_infix hne
  | cons c s ih =>
    have hrest : ∀ skip, ¬ pat <:+: replaceGo pat repl skip s :=
      fun skip => ih skip [] (fun _ => rfl) (unmatched_nil s)
    cases skip with
    | succ skip =>
      rw [hskip (Nat.succ_pos skip), replaceGo]
      exact hrest skip
    | zero =>
      rw [replaceGo]
      by_cases hpre : pat.isPrefixOf (c :: s) = true
      · rw [if_pos hpre, ← List.append_assoc]
        intro h
        rcases hb _ _ h with h | h
        · exact hx.not_infix hne h
        · exact hrest _ h
      · have hc : ¬ pat <+: c :: s := fun h => hpre (List.isPrefixOf_iff_prefix.mpr h)
        have := ih 0 (x ++ [c]) (fun h => absurd h (Nat.lt_irrefl 0)) (hx.concat hc)
        rw [if_neg hpre]
        rwa [List.append_assoc, List.singleton_append] at this

theorem not_infix_replace (hne : pat ≠ []) (hb : Barrier pat repl) (s : Text) :
    ¬ pat <:+: replace pat repl s := by
  have := not_infix_replaceGo hne hb 0 s [] (fun _ => rfl) (unmatched_nil s)
  rwa [List.nil_append] at this

theorem not_infix_replaceGo_of_not_infix (pat : Text) (hb : Barrier needle repl) (skip : Nat) (s x : Text)
    (hskip : 0 < skip → x = []) (hx : ¬ needle <:+: x ++ s.drop skip) :
    ¬ needle <:+: x ++ replaceGo pat repl skip s := by
  induction s generalizing skip x with
  | nil =>
    have hgo : replaceGo pat repl skip [] = [] := by
      cases skip <;> rfl
    rw [hgo]
    rwa [List.drop_nil] at hx
  | cons c s ih =>
    cases skip with
    | succ skip =>
      have := ih skip [] (fun _ => rfl)
      rw [hskip (Nat.succ_pos skip), List.drop_succ_cons] at hx
      rw [hskip (Nat.succ_pos skip), replaceGo]
      exact this hx
    | zero =>
      rw [List.drop_zero] at hx
      rw [replaceGo]
      by_cases hpre : pat.isPrefixOf (c :: s) = true
      · rw [if_pos hpre, ← List.append_assoc]
        intro h
        rcases hb _ _ h with h | h
        · exact hx (h.trans (List.prefix_append _ _).isInfix)
        · refine ih (pat.length - 1) [] (fun _ => rfl) ?_ h
          intro h
          have hsuffix : s.drop (pat.length - 1) <:+ x ++ c :: s :=
            (List.drop_suffix _ s).trans ⟨x ++ [c], by simp⟩
          exact hx (h.trans hsuffix.isInfix)
      · have := ih 0 (x ++ [c]) (fun h => absurd h (Nat.lt_irrefl 0))
        rw [if_neg hpre]
        rw [List.drop_zero, List.append_assoc, List.append_assoc, List.singleton_append] at this
        exact this hx

theorem not_infix_replace_of_not_infix (hb : Barrier needle repl) {s : Text}
    (hs : ¬ needle <:+: s) : ¬ needle <:+: replace pat repl s := by
  have := not_infix_replaceGo_of_not_infix pat hb 0 s [] (fun _ => rfl) hs
  rwa [List.nil_append] at this

end Text

inductive Marker where
  | opening
  | closing
  deriving DecidableEq

/-- All occurrences of the two markers, in order. -/
def markersIn {α : Type} [DecidableEq α] (opening closing : List α) : List α → List Marker
  | [] => []
  | a :: s =>
    (if opening.isPrefixOf (a :: s) then [.opening]
      else if closing.isPrefixOf (a :: s) then [.closing] else []) ++ markersIn opening closing s

/-- An opening and a closing marker, and two characters that occur in neither. -/
structure Fence (α : Type) [DecidableEq α] where
  opening : List α
  closing : List α
  blank : α
  newline : α
  opening_once : markersIn opening closing opening = [.opening]
  closing_once : markersIn opening closing closing = [.closing]
  blank_free : blank ∉ opening ∧ blank ∉ closing
  newline_free : newline ∉ opening ∧ newline ∉ closing

namespace Fence

variable {α : Type} [DecidableEq α] (f : Fence α)

def markers (s : List α) : List Marker := markersIn f.opening f.closing s

/-- The marker that ends a piece. -/
def next (inside : Bool) : List α := if inside then f.closing else f.opening

/-- The pieces outside and inside the blocks, alternately; `skip` characters belong to the marker
that was read last. -/
def pieces : (inside : Bool) → (skip : Nat) → List α → List (List α)
  | _, _, [] => [[]]
  | inside, skip + 1, _ :: s => pieces inside skip s
  | inside, 0, a :: s =>
    if (f.next inside).isPrefixOf (a :: s) then
      [] :: pieces (!inside) ((f.next inside).length - 1) s
    else (pieces inside 0 s).modifyHead (a :: ·)

/-- A text without markers. -/
def Clear (s : List α) : Prop := ¬ f.opening <:+: s ∧ ¬ f.closing <:+: s

/-- A block with a body, as a renderer writes it. -/
def block (body : List α) : List α :=
  f.opening ++ f.blank :: (body ++ f.newline :: (f.closing ++ [f.newline, f.newline]))

variable {f}

theorem opening_ne : f.opening ≠ [] := by
  intro h
  have := f.opening_once
  rw [h] at this
  cases this

theorem closing_ne : f.closing ≠ [] := by
  intro h
  have := f.closing_once
  rw [h] at this
  cases this

theorem clear_append_cons {x y : List α} {a : α} (ha : a ∉ f.opening ∧ a ∉ f.closing) :
    f.Clear (x ++ a :: y) ↔ f.Clear x ∧ f.Clear y := by
  unfold Clear
  rw [infix_append_cons ha.1, infix_append_cons ha.2]
  tauto

theorem clear_nil : f.Clear [] := by
  unfold Clear
  simp [opening_ne, closing_ne]

theorem markers_clear {s : List α} (h : f.Clear s) : f.markers s = [] := by
  induction s with
  | nil => rfl
  | cons a s ih =>
    have htail : f.Clear s :=
      ⟨fun hin => h.1 (List.infix_cons hin), fun hin => h.2 (List.infix_cons hin)⟩
    have hopen : f.opening.isPrefixOf (a :: s) = false := by
      rw [Bool.eq_false_iff]
      exact fun hpre => h.1 (List.isPrefixOf_iff_prefix.mp hpre).isInfix
    have hclose : f.closing.isPrefixOf (a :: s) = false := by
      rw [Bool.eq_false_iff]
      exact fun hpre => h.2 (List.isPrefixOf_iff_prefix.mp hpre).isInfix
    unfold markers at ih ⊢
    rw [markersIn, ih htail, hopen, hclose]
    rfl

theorem isPrefixOf_append_cons {needle x y : List α} {a : α} (ha : a ∉ needle) :
    needle.isPrefixOf (x ++ a :: y) = needle.isPrefixOf x := by
  rw [Bool.eq_iff_iff, List.isPrefixOf_iff_prefix, List.isPrefixOf_iff_prefix]
  exact prefix_append_cons ha

theorem isPrefixOf_nil {needle : List α} (h : needle ≠ []) : needle.isPrefixOf [] = false := by
  cases needle with
  | nil => exact absurd rfl h
  | cons a needle => rfl

theorem markers_append_cons {x y : List α} {a : α} (ha : a ∉ f.opening ∧ a ∉ f.closing) :
    f.markers (x ++ a :: y) = f.markers x ++ f.markers y := by
  unfold markers
  induction x with
  | nil =>
    have hopen := isPrefixOf_append_cons (x := []) (y := y) ha.1
    have hclose := isPrefixOf_append_cons (x := []) (y := y) ha.2
    rw [List.nil_append, isPrefixOf_nil opening_ne] at hopen
    rw [List.nil_append, isPrefixOf_nil closing_ne] at hclose
    rw [List.nil_append, markersIn.eq_2, hopen, hclose]
    rfl
  | cons b x ih =>
    have hopen := isPrefixOf_append_cons (x := b :: x) (y := y) ha.1
    have hclose := isPrefixOf_append_cons (x := b :: x) (y := y) ha.2
    rw [List.cons_append] at hopen hclose ⊢
    rw [markersIn, hopen, hclose, ih, markersIn, List.append_assoc]

theorem pieces_clear (inside : Bool) {s : List α} (h : ¬ f.next inside <:+: s) :
    f.pieces inside 0 s = [s] := by
  induction s with
  | nil => rfl
  | cons a s ih =>
    have hpre : (f.next inside).isPrefixOf (a :: s) = false := by
      rw [Bool.eq_false_iff]
      exact fun hpre => h (List.isPrefixOf_iff_prefix.mp hpre).isInfix
    rw [pieces, hpre, ih fun hin => h (List.infix_cons hin)]
    rfl

theorem next_ne (inside : Bool) : f.next inside ≠ [] := by
  cases inside
  · exact f.opening_ne
  · exact f.closing_ne

theorem pieces_skip (inside : Bool) (m s : List α) :
    f.pieces inside m.length (m ++ s) = f.pieces inside 0 s := by
  induction m with
  | nil => rfl
  | cons a m ih => exact ih

theorem pieces_marker (inside : Bool) (s : List α) :
    f.pieces inside 0 (f.next inside ++ s) = [] :: f.pieces (!inside) 0 s := by
  obtain ⟨a, m, hnext⟩ := List.exists_cons_of_ne_nil (next_ne (f := f) inside)
  have hpre : (f.next inside).isPrefixOf (f.next inside ++ s) = true :=
    List.isPrefixOf_iff_prefix.mpr (List.prefix_append _ _)
  have hlen : (f.next inside).length - 1 = m.length := by simp [hnext]
  rw [hnext, List.cons_append] at hpre ⊢
  rw [pieces, hnext, hpre, if_pos rfl, List.length_cons, Nat.add_sub_cancel, pieces_skip]

theorem pieces_append (inside : Bool) {x : List α} {a : α} (ha : a ∉ f.next inside)
    (hx : ¬ f.next inside <:+: x) (s : List α) :
    f.pieces inside 0 (x ++ a :: (f.next inside ++ s)) =
      (x ++ [a]) :: f.pieces (!inside) 0 s := by
  induction x with
  | nil =>
    have hpre := isPrefixOf_append_cons (x := []) (y := f.next inside ++ s) ha
    rw [List.nil_append, isPrefixOf_nil (next_ne inside)] at hpre
    rw [List.nil_append, pieces, hpre, pieces_marker]
    rfl
  | cons b x ih =>
    have hpre := isPrefixOf_append_cons (x := b :: x) (y := f.next inside ++ s) ha
    have hfalse : (f.next inside).isPrefixOf (b :: x) = false := by
      rw [Bool.eq_false_iff]
      exact fun h => hx (List.isPrefixOf_iff_prefix.mp h).isInfix
    rw [hfalse, List.cons_append] at hpre
    rw [List.cons_append, pieces, hpre, ih fun h => hx (List.infix_cons h)]
    rfl

theorem markers_block {body : List α} (h : f.Clear body) (s : List α) :
    f.markers (f.block body ++ s) = .opening :: .closing :: f.markers s := by
  have hopen : f.markers f.opening = [.opening] := f.opening_once
  have hclose : f.markers f.closing = [.closing] := f.closing_once
  have hnil : f.markers [] = [] := rfl
  have hshape : f.block body ++ s = f.opening ++ f.blank :: (body ++ f.newline ::
      (f.closing ++ f.newline :: ([] ++ f.newline :: s))) := by
    simp [block]
  rw [hshape, markers_append_cons f.blank_free, markers_append_cons f.newline_free,
    markers_append_cons f.newline_free, markers_append_cons f.newline_free, hopen, hclose,
    markers_clear h, hnil]
  rfl

/-- The rest of a block's own piece, between its markers. -/
def interior (f : Fence α) (body : List α) : List α := f.blank :: (body ++ [f.newline])

/-- What stands outside the markers before the first block: nothing, or a text with a newline at
its end. -/
def Lead (f : Fence α) (lead : List α) : Prop :=
  lead = [] ∨ ∃ x, lead = x ++ [f.newline] ∧ f.Clear x

theorem Lead.clear {lead : List α} (h : f.Lead lead) : f.Clear lead := by
  rcases h with rfl | ⟨x, rfl, hx⟩
  · exact clear_nil
  · exact (clear_append_cons f.newline_free).mpr ⟨hx, clear_nil⟩

theorem pieces_lead {lead : List α} (h : f.Lead lead) (s : List α) :
    f.pieces false 0 (lead ++ (f.opening ++ s)) = lead :: f.pieces true 0 s := by
  rcases h with rfl | ⟨x, rfl, hx⟩
  · exact pieces_marker (f := f) false s
  · rw [List.append_assoc, List.singleton_append]
    exact pieces_append (f := f) false f.newline_free.1 hx.1 s

theorem pieces_interior {body : List α} (h : f.Clear body) (s : List α) :
    f.pieces true 0 (f.interior body ++ (f.closing ++ s)) =
      f.interior body :: f.pieces false 0 s := by
  have hclear : f.Clear (f.blank :: body) :=
    (clear_append_cons (x := []) f.blank_free).mpr ⟨clear_nil, h⟩
  have := pieces_append (f := f) true f.newline_free.2 hclear.2 s
  simpa [interior, next] using this

theorem markers_blocks {lead : List α} {bodies : List (List α)} (hlead : f.Lead lead)
    (hbodies : ∀ body ∈ bodies, f.Clear body) :
    f.markers (lead ++ bodies.flatMap f.block) =
      bodies.flatMap fun _ => [.opening, .closing] := by
  have hrest : f.markers (bodies.flatMap f.block) =
      bodies.flatMap fun _ => [.opening, .closing] := by
    induction bodies with
    | nil => rfl
    | cons body bodies ih =>
      rw [List.flatMap_cons, List.flatMap_cons, markers_block (hbodies body (by simp)),
        ih fun b hb => hbodies b (by simp [hb])]
      rfl
  rcases hlead with rfl | ⟨x, rfl, hx⟩
  · exact hrest
  · rw [List.append_assoc, List.singleton_append, markers_append_cons f.newline_free,
      markers_clear hx, hrest, List.nil_append]

theorem pieces_blocks {lead : List α} {bodies : List (List α)} (hlead : f.Lead lead)
    (hbodies : ∀ body ∈ bodies, f.Clear body) :
    f.pieces false 0 (lead ++ bodies.flatMap f.block) =
      lead :: bodies.flatMap fun body => [f.interior body, [f.newline, f.newline]] := by
  induction bodies generalizing lead with
  | nil =>
    rw [List.flatMap_nil, List.append_nil, pieces_clear false hlead.clear.1]
    rfl
  | cons body bodies ih =>
    have hbetween : f.Lead [f.newline, f.newline] :=
      .inr ⟨[f.newline], rfl, (clear_append_cons (x := []) f.newline_free).mpr
        ⟨clear_nil, clear_nil⟩⟩
    have hshape : lead ++ (f.block body ++ bodies.flatMap f.block) = lead ++ (f.opening ++
        (f.interior body ++ (f.closing ++ ([f.newline, f.newline] ++ bodies.flatMap f.block)))) := by
      simp [block, interior]
    rw [List.flatMap_cons, hshape, pieces_lead hlead, pieces_interior (hbodies body (by simp)),
      ih hbetween fun b hb => hbodies b (by simp [hb])]
    rfl

end Fence

end Jitgen
