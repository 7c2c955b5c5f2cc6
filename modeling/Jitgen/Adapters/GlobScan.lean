import Jitgen.Adapters.Glob
import Jitgen.Framework.Wildcards
import Mathlib.Data.Prod.Lex

/-!
# The glob scan

What the matching loop decides, for every way of comparing a pattern element with a subject
element: one backtrack point is enough.
-/

namespace Jitgen

variable {α β : Type} (classify : α → β → GlobStep) (isStar : α → Bool)

/-- Some way to read the subject by the pattern, with the comparisons of the loop. -/
def GlobReads : List α → List β → Prop
  | pat, [] => pat.all isStar = true
  | [], _ :: _ => False
  | c :: pat, d :: rest =>
    match classify c d with
    | .consume => GlobReads pat rest
    | .star => ∃ t, t <:+ d :: rest ∧ GlobReads pat t
    | .mismatch => False

variable {classify isStar}

private theorem globReads_nil {pat : List α} :
    GlobReads classify isStar pat [] ↔ pat.all isStar = true := by
  cases pat <;> rfl

theorem GlobReads.tail {c : α} {pat : List α} {s : List β}
    (h : GlobReads classify isStar (c :: pat) s) :
    ∃ t, t <:+ s ∧ GlobReads classify isStar pat t := by
  cases s with
  | nil =>
    have hall := globReads_nil.mp h
    simp only [List.all_cons, Bool.and_eq_true] at hall
    exact ⟨[], List.suffix_rfl, globReads_nil.mpr hall.2⟩
  | cons d rest =>
    simp only [GlobReads] at h
    cases hstep : classify c d with
    | consume =>
      simp only [hstep] at h
      exact ⟨rest, List.suffix_cons d rest, h⟩
    | star =>
      simp only [hstep] at h
      exact h
    | mismatch => simp [hstep] at h

theorem GlobReads.skip {block pat : List α} {taken subject t : List β}
    (hblock : List.Forall₂ (fun c d => classify c d = .consume) block taken)
    (ht : t <:+ taken ++ subject) (h : GlobReads classify isStar (block ++ pat) t) :
    ∃ v, v <:+ subject ∧ GlobReads classify isStar pat v := by
  induction hblock generalizing t with
  | nil => exact ⟨t, ht, h⟩
  | @cons c d block taken hstep _ ih =>
    rcases List.suffix_cons_iff.mp ht with rfl | ht
    · simp only [List.cons_append, GlobReads, hstep] at h
      exact ih List.suffix_rfl h
    · obtain ⟨u, hu, h⟩ := h.tail
      exact ih (hu.trans ht) h

variable (classify isStar)

namespace GlobState

private theorem run_of_subject_nil {s : GlobState α β} (h : s.subject = []) :
    s.run classify isStar = s.pat.all isStar := by
  obtain ⟨pat, subject, star, bound⟩ := s
  subst h
  exact globLoop.eq_1 classify isStar pat star bound

private theorem run_of_subject_cons {s : GlobState α β} {d : β} {rest : List β}
    (h : s.subject = d :: rest) :
    s.run classify isStar = (s.next classify).elim false (·.run classify isStar) := by
  obtain ⟨pat, subject, star, bound⟩ := s
  subst h
  unfold run
  rw [globLoop.eq_def]
  cases pat with
  | nil =>
    rcases star with _ | ⟨after, _ | ⟨e, mark⟩⟩
    · rfl
    · rfl
    · rfl
  | cons c pat =>
    cases hstep : classify c d
    · simp [next, hstep]
    · simp [next, hstep]
    · rcases star with _ | ⟨after, _ | ⟨e, mark⟩⟩
      · simp [next, hstep, back]
      · simp [next, hstep, back]
      · simp [next, hstep, back]

/-- The loop can still succeed, from here or from a later end of the last star. -/
def Open (s : GlobState α β) : Prop :=
  GlobReads classify isStar s.pat s.subject ∨
    ∃ after d mark t, s.star = some (after, d :: mark) ∧ t <:+ mark ∧
      GlobReads classify isStar after t

/-- Since the last star, each element of the pattern has taken one of the subject. -/
def Tracked (s : GlobState α β) : Prop :=
  ∀ x ∈ s.star, ∃ block taken, x.1 = block ++ s.pat ∧ x.2 = taken ++ s.subject ∧
    List.Forall₂ (fun c d => classify c d = .consume) block taken

def size (s : GlobState α β) : Nat ×ₗ Nat ×ₗ Nat :=
  toLex (s.star.elim (s.subject.length + 1) (·.2.length),
    toLex (s.subject.length, s.pat.length))

variable {classify isStar}

private theorem size_back {s s' : GlobState α β} (h : s' ∈ s.back) : s'.size < s.size := by
  obtain ⟨pat, subject, star, bound⟩ := s
  rcases star with _ | ⟨after, _ | ⟨e, mark⟩⟩
  · simp [back] at h
  · simp [back] at h
  · simp only [back, Option.mem_some_iff] at h
    subst h
    simp [size, Prod.Lex.lt_iff]

private theorem size_next {s s' : GlobState α β} (h : s' ∈ s.next classify) : s'.size < s.size := by
  obtain ⟨pat, subject, star, bound⟩ := s
  rcases subject with _ | ⟨d, rest⟩
  · simp [next] at h
  rcases pat with _ | ⟨c, pat⟩
  · exact size_back h
  cases hstep : classify c d with
  | consume =>
    simp only [next, hstep, Option.mem_some_iff] at h
    subst h
    cases star <;> simp [size, Prod.Lex.lt_iff]
  | star =>
    simp only [next, hstep, Option.mem_some_iff] at h
    subst h
    cases star with
    | none => simp [size, Prod.Lex.lt_iff]
    | some x =>
      have hle := bound x rfl
      simp only [List.length_cons] at hle
      simp [size, Prod.Lex.lt_iff]
      omega
  | mismatch =>
    simp only [next, hstep] at h
    exact size_back h

private theorem tracked_back {s s' : GlobState α β} (h : s' ∈ s.back) : s'.Tracked classify := by
  obtain ⟨pat, subject, star, bound⟩ := s
  rcases star with _ | ⟨after, _ | ⟨e, mark⟩⟩
  · simp [back] at h
  · simp [back] at h
  · simp only [back, Option.mem_some_iff] at h
    subst h
    intro x hx
    cases hx
    exact ⟨[], [], rfl, rfl, .nil⟩

private theorem tracked_next {s s' : GlobState α β} (hs : s.Tracked classify)
    (h : s' ∈ s.next classify) : s'.Tracked classify := by
  obtain ⟨pat, subject, star, bound⟩ := s
  rcases subject with _ | ⟨d, rest⟩
  · simp [next] at h
  rcases pat with _ | ⟨c, pat⟩
  · exact tracked_back h
  cases hstep : classify c d with
  | consume =>
    simp only [next, hstep, Option.mem_some_iff] at h
    subst h
    intro x hx
    obtain ⟨block, taken, hafter, hmark, hblock⟩ := hs x hx
    refine ⟨block ++ [c], taken ++ [d], by simpa using hafter, by simpa using hmark, ?_⟩
    exact List.rel_append hblock (.cons hstep .nil)
  | star =>
    simp only [next, hstep, Option.mem_some_iff] at h
    subst h
    intro x hx
    cases hx
    exact ⟨[], [], rfl, rfl, .nil⟩
  | mismatch =>
    simp only [next, hstep] at h
    exact tracked_back h

theorem Tracked.skip {s : GlobState α β} (hs : s.Tracked classify)
    (h : s.Open classify isStar) :
    ∃ v, v <:+ s.subject ∧ GlobReads classify isStar s.pat v := by
  rcases h with h | ⟨after, d, mark, t, hstar, ht, h⟩
  · exact ⟨s.subject, List.suffix_rfl, h⟩
  obtain ⟨block, taken, hafter, hmark, hblock⟩ := hs _ hstar
  simp only at hafter hmark
  subst hafter
  exact h.skip hblock (hmark ▸ ht.trans (List.suffix_cons d mark))

private theorem open_back {s : GlobState α β}
    (hhere : ¬ GlobReads classify isStar s.pat s.subject) :
    s.Open classify isStar ↔ ∃ s' ∈ s.back, s'.Open classify isStar := by
  obtain ⟨pat, subject, star, bound⟩ := s
  simp only at hhere
  rcases star with _ | ⟨after, _ | ⟨e, mark⟩⟩
  · simp [Open, back, hhere]
  · simp [Open, back, hhere]
  · cases mark <;> simp [Open, back, hhere, List.suffix_cons_iff, or_and_right, exists_or]

private theorem open_star {pat : List α} {subject : List β} {bound} :
    (⟨pat, subject, some (pat, subject), bound⟩ : GlobState α β).Open classify isStar ↔
      ∃ t, t <:+ subject ∧ GlobReads classify isStar pat t := by
  cases subject <;> simp [Open, List.suffix_cons_iff, or_and_right, exists_or]

private theorem open_next {s : GlobState α β} (hs : s.Tracked classify) {d : β} {rest : List β}
    (hsubject : s.subject = d :: rest) :
    s.Open classify isStar ↔ ∃ s' ∈ s.next classify, s'.Open classify isStar := by
  obtain ⟨pat, subject, star, bound⟩ := s
  subst hsubject
  rcases pat with _ | ⟨c, pat⟩
  · exact open_back (by simp [GlobReads])
  cases hstep : classify c d with
  | consume => simp [next, hstep, Open, GlobReads]
  | star =>
    simp only [next, hstep, Option.mem_some_iff, exists_eq_left']
    constructor
    · intro h
      obtain ⟨v, hv, h⟩ := hs.skip h
      obtain ⟨t, ht, h⟩ := h.tail
      exact open_star.mpr ⟨t, ht.trans hv, h⟩
    · intro h
      left
      simpa only [GlobReads, hstep] using open_star.mp h
  | mismatch =>
    simp only [next, hstep]
    exact open_back (by simp [GlobReads, hstep])

private theorem run_iff {s : GlobState α β} (hs : s.Tracked classify) :
    s.run classify isStar = true ↔ s.Open classify isStar := by
  induction hsize : s.size using WellFoundedLT.induction generalizing s with
  | ind n ih =>
    subst hsize
    cases hsubject : s.subject with
    | nil =>
      rw [run_of_subject_nil classify isStar hsubject, ← globReads_nil, ← hsubject]
      constructor
      · exact .inl
      · intro h
        obtain ⟨v, hv, h⟩ := hs.skip h
        rw [hsubject, List.suffix_nil] at hv
        rwa [hsubject, ← hv]
    | cons d rest =>
      rw [run_of_subject_cons classify isStar hsubject, open_next hs hsubject]
      cases hnext : s.next classify with
      | none => simp
      | some s' =>
        have hs' := tracked_next hs hnext
        simpa using ih s'.size (size_next hnext) hs' rfl

end GlobState

theorem globLoop_iff {pat : List α} {subject : List β} :
    globLoop classify isStar pat subject none (by simp) = true ↔
      GlobReads classify isStar pat subject := by
  have hstart : (GlobState.init pat subject).Tracked classify := by
    simp [GlobState.Tracked, GlobState.init]
  have hrun := @GlobState.run_iff _ _ classify isStar _ hstart
  simpa [GlobState.Open, GlobState.init, GlobState.run] using hrun

/-- A loop that looks for a star first covers the language of the pattern. -/
theorem globReads_iff_mem_language {w : Wildcards α β}
    (hstar : ∀ c d, classify c d = .star ↔ w.isStar c = true)
    (hconsume : ∀ c d, classify c d = .consume ↔ w.isStar c = false ∧ w.fits c d)
    {pat : List α} {s : List β} :
    GlobReads classify w.isStar pat s ↔ s ∈ w.language pat := by
  induction pat generalizing s with
  | nil => cases s <;> simp [GlobReads, Wildcards.mem_language_nil]
  | cons c pat ih =>
    cases s with
    | nil => rw [globReads_nil, Wildcards.nil_mem_language]
    | cons d rest =>
      simp only [GlobReads]
      cases hstep : classify c d with
      | consume =>
        obtain ⟨hc, hfits⟩ := (hconsume c d).mp hstep
        simp [Wildcards.mem_language_one hc, hfits, ih]
      | star => simp [Wildcards.mem_language_star ((hstar c d).mp hstep), ih]
      | mismatch =>
        have hc : w.isStar c = false := by
          by_contra h
          simp [(hstar c d).mpr (by simpa using h)] at hstep
        have hfits : ¬ w.fits c d := fun h => by simp [(hconsume c d).mpr ⟨hc, h⟩] at hstep
        simp [Wildcards.mem_language_one hc, hfits]

/-- A loop that looks for a fit first covers the literal readings only. -/
theorem globReads_iff_readsLiterally {w : Wildcards α β}
    (hconsume : ∀ c d, classify c d = .consume ↔ w.fits c d)
    (hstar : ∀ c d, classify c d = .star ↔ ¬ w.fits c d ∧ w.isStar c = true)
    {pat : List α} {s : List β} :
    GlobReads classify w.isStar pat s ↔ w.ReadsLiterally pat s := by
  induction pat generalizing s with
  | nil => cases s <;> simp [GlobReads, Wildcards.readsLiterally_nil]
  | cons c pat ih =>
    rw [Wildcards.readsLiterally_cons]
    cases s with
    | nil => simp [GlobReads, ← ih, List.suffix_nil, globReads_nil]
    | cons d rest =>
      simp only [GlobReads]
      cases hstep : classify c d with
      | consume => simp [(hconsume c d).mp hstep, ih]
      | star =>
        obtain ⟨hfits, hc⟩ := (hstar c d).mp hstep
        simp [hfits, hc, ih]
      | mismatch =>
        have hfits : ¬ w.fits c d := fun h => by simp [(hconsume c d).mpr h] at hstep
        have hc : ¬ w.isStar c = true := fun h => by simp [(hstar c d).mpr ⟨hfits, h⟩] at hstep
        simp [hfits, hc]

end Jitgen
