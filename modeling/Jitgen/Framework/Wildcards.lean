import Mathlib.Computability.Language

/-!
# Patterns with wildcards

A pattern is a list of elements. A star stands for any run of the subject, and every other element
for one element of the subject that it fits.
-/

namespace Jitgen

/-- Which elements of a pattern are stars, and what an element fits when it is taken literally. -/
structure Wildcards (α β : Type) where
  isStar : α → Bool
  fits : α → β → Prop

namespace Wildcards

variable {α β : Type} (w : Wildcards α β)

/-- The runs of length one that an element fits. -/
def ones (c : α) : Language β := {s | ∃ d, s = [d] ∧ w.fits c d}

/-- The runs that one element of a pattern stands for. -/
def element (c : α) : Language β := if w.isStar c then ⊤ else w.ones c

/-- The subjects that a pattern stands for, element by element. -/
def language (pat : List α) : Language β := (pat.map w.element).prod

/-- The readings in which a star that stands at an element it fits stands for that element alone.
Elsewhere it stands for any run. -/
inductive ReadsLiterally : List α → List β → Prop
  | nil : ReadsLiterally [] []
  | one {c d pat rest} (hfits : w.fits c d) (hrest : ReadsLiterally pat rest) :
      ReadsLiterally (c :: pat) (d :: rest)
  | run {c pat s t} (hstar : w.isStar c = true) (hhead : ∀ d ∈ s.head?, ¬ w.fits c d)
      (ht : t <:+ s) (hrest : ReadsLiterally pat t) : ReadsLiterally (c :: pat) s

variable {w}

theorem mem_language_nil {s : List β} : s ∈ w.language [] ↔ s = [] := by
  simp [language, Language.mem_one]

theorem mem_language_star {c : α} (hc : w.isStar c = true) {pat : List α} {s : List β} :
    s ∈ w.language (c :: pat) ↔ ∃ t, t <:+ s ∧ t ∈ w.language pat := by
  have helement : w.element c = ⊤ := if_pos hc
  rw [language, List.map_cons, List.prod_cons, helement, Language.mem_mul]
  constructor
  · intro h
    obtain ⟨u, -, t, ht, rfl⟩ := h
    exact ⟨t, List.suffix_append u t, ht⟩
  · intro h
    obtain ⟨t, ⟨u, rfl⟩, ht⟩ := h
    exact ⟨u, trivial, t, ht, rfl⟩

theorem mem_language_one {c : α} (hc : w.isStar c = false) {pat : List α} {s : List β} :
    s ∈ w.language (c :: pat) ↔ ∃ d t, s = d :: t ∧ w.fits c d ∧ t ∈ w.language pat := by
  have helement : w.element c = w.ones c := by simp [element, hc]
  rw [language, List.map_cons, List.prod_cons, helement, Language.mem_mul]
  constructor
  · intro h
    obtain ⟨u, ⟨d, rfl, hfits⟩, t, ht, rfl⟩ := h
    exact ⟨d, t, rfl, hfits, ht⟩
  · intro h
    obtain ⟨d, t, rfl, hfits, ht⟩ := h
    exact ⟨[d], ⟨d, rfl, hfits⟩, t, ht, rfl⟩

theorem nil_mem_language {pat : List α} : [] ∈ w.language pat ↔ pat.all w.isStar = true := by
  induction pat with
  | nil => simp [mem_language_nil]
  | cons c pat ih =>
    cases hc : w.isStar c with
    | true => simp [mem_language_star hc, List.suffix_nil, ih, hc]
    | false => simp [mem_language_one hc, hc]

theorem cons_mem_language_star {c : α} (hc : w.isStar c = true) {pat : List α} {d : β}
    {s : List β} (h : s ∈ w.language pat) : d :: s ∈ w.language (c :: pat) :=
  (mem_language_star hc).mpr ⟨s, List.suffix_cons d s, h⟩

theorem mem_language_mono {isStar : α → Bool} {fits fits' : α → β → Prop} {pat : List α}
    {s : List β} (h : s ∈ (Wildcards.mk isStar fits).language pat)
    (hfits : ∀ c, ∀ d ∈ s, fits c d → fits' c d) :
    s ∈ (Wildcards.mk isStar fits').language pat := by
  induction pat generalizing s with
  | nil => exact mem_language_nil.mpr (mem_language_nil.mp h)
  | cons c pat ih =>
    cases hc : isStar c with
    | true =>
      obtain ⟨t, ht, h⟩ := (mem_language_star hc).mp h
      have hmem := ih h fun c d hd => hfits c d (ht.mem hd)
      exact (mem_language_star hc).mpr ⟨t, ht, hmem⟩
    | false =>
      obtain ⟨d, t, rfl, hd, h⟩ := (mem_language_one hc).mp h
      have hmem := ih h fun c d hd => hfits c d (List.mem_cons_of_mem _ hd)
      exact (mem_language_one hc).mpr ⟨d, t, rfl, hfits c d List.mem_cons_self hd, hmem⟩

theorem readsLiterally_nil {s : List β} : w.ReadsLiterally [] s ↔ s = [] := by
  constructor
  · intro h
    cases h
    rfl
  · intro h
    subst h
    exact .nil

theorem readsLiterally_cons {c : α} {pat : List α} {s : List β} :
    w.ReadsLiterally (c :: pat) s ↔
      (∃ d rest, s = d :: rest ∧ w.fits c d ∧ w.ReadsLiterally pat rest) ∨
        (w.isStar c = true ∧ (∀ d ∈ s.head?, ¬ w.fits c d) ∧
          ∃ t, t <:+ s ∧ w.ReadsLiterally pat t) := by
  constructor
  · intro h
    cases h with
    | one hfits hrest => exact .inl ⟨_, _, rfl, hfits, hrest⟩
    | run hstar hhead ht hrest => exact .inr ⟨hstar, hhead, _, ht, hrest⟩
  · intro h
    rcases h with ⟨d, rest, rfl, hfits, hrest⟩ | ⟨hstar, hhead, t, ht, hrest⟩
    · exact .one hfits hrest
    · exact .run hstar hhead ht hrest

theorem ReadsLiterally.mem_language {pat : List α} {s : List β} (h : w.ReadsLiterally pat s) :
    s ∈ w.language pat := by
  induction h with
  | nil => exact mem_language_nil.mpr rfl
  | @one c d pat rest hfits _ ih =>
    cases hc : w.isStar c with
    | true => exact cons_mem_language_star hc ih
    | false => exact (mem_language_one hc).mpr ⟨d, rest, rfl, hfits, ih⟩
  | run hstar _ ht _ ih => exact (mem_language_star hstar).mpr ⟨_, ht, ih⟩

theorem readsLiterally_of_mem {pat : List α} {s : List β}
    (hplain : ∀ c ∈ pat, w.isStar c = true → ∀ d ∈ s, ¬ w.fits c d)
    (h : s ∈ w.language pat) : w.ReadsLiterally pat s := by
  induction pat generalizing s with
  | nil =>
    rw [mem_language_nil.mp h]
    exact .nil
  | cons c pat ih =>
    have hrest : ∀ t, t <:+ s → ∀ c ∈ pat, w.isStar c = true → ∀ d ∈ t, ¬ w.fits c d :=
      fun t ht c hc hstar d hd => hplain c (List.mem_cons_of_mem _ hc) hstar d (ht.mem hd)
    cases hc : w.isStar c with
    | true =>
      obtain ⟨t, ht, hmem⟩ := (mem_language_star hc).mp h
      have hhead : ∀ d ∈ s.head?, ¬ w.fits c d := fun d hd =>
        hplain c List.mem_cons_self hc d (List.mem_of_mem_head? hd)
      exact .run hc hhead ht (ih (hrest t ht) hmem)
    | false =>
      obtain ⟨d, t, rfl, hfits, hmem⟩ := (mem_language_one hc).mp h
      exact .one hfits (ih (hrest t (List.suffix_cons d t)) hmem)

end Wildcards

end Jitgen
