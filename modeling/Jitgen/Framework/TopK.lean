import Mathlib.Data.List.Perm.Basic
import Mathlib.Data.List.Nodup

/-!
# The first elements of a sorted list

A list is sorted stably and cut. Where no two of its elements are equally good, an element is among
the first `k` exactly when fewer than `k` are better, so the order of the list does not matter, an
element that becomes better stays, and one that was not taken need not have been there.
-/

namespace Jitgen

variable {α : Type}

def topK (le : α → α → Bool) (k : Nat) (l : List α) : List α := (l.mergeSort le).take k

namespace TopK

variable (le : α → α → Bool)

/-- Strictly better. -/
def ahead (a b : α) : Bool := le a b && !le b a

/-- A comparison that sorts. -/
structure Sorts : Prop where
  trans : ∀ a b c, le a b = true → le b c = true → le a c = true
  total : ∀ a b, (le a b || le b a) = true

/-- No two elements are equally good. -/
def Strict (l : List α) : Prop :=
  ∀ a ∈ l, ∀ b ∈ l, le a b = true → le b a = true → a = b

variable {le} {l l' : List α} {x y : α} {k : Nat}

theorem Strict.perm (h : Strict le l) (hp : l.Perm l') : Strict le l' :=
  fun a ha b hb => h a (hp.mem_iff.mpr ha) b (hp.mem_iff.mpr hb)

theorem ahead_irrefl (a : α) : ahead le a a = false := by
  cases h : le a a <;> simp [ahead, h]

/-- The place of an element of a sorted list is the number of elements ahead of it. -/
theorem mem_take_iff (hs : l.Pairwise fun a b => ahead le a b = true) :
    x ∈ l.take k ↔ x ∈ l ∧ l.countP (ahead le · x) < k := by
  induction l generalizing k with
  | nil => simp
  | cons a l ih =>
    obtain ⟨hhead, htail⟩ := List.pairwise_cons.mp hs
    cases k with
    | zero => simp
    | succ k =>
      rw [List.take_succ_cons, List.mem_cons, List.mem_cons, ih htail, List.countP_cons]
      by_cases heq : x = a
      · subst heq
        have hnone : l.countP (ahead le · x) = 0 := by
          rw [List.countP_eq_zero]
          intro b hb hba
          have hab := hhead b hb
          simp only [ahead, Bool.and_eq_true, Bool.not_eq_true'] at hab hba
          rw [hab.1] at hba
          cases hba.2
        simp [hnone, ahead_irrefl]
      · constructor
        · rintro (h | ⟨hmem, hcount⟩)
          · exact absurd h heq
          · refine ⟨.inr hmem, ?_⟩
            rw [if_pos (hhead x hmem)]
            omega
        · rintro ⟨h | hmem, hcount⟩
          · exact absurd h heq
          · rw [if_pos (hhead x hmem)] at hcount
            exact .inr ⟨hmem, by omega⟩

theorem pairwise_ahead (hle : Sorts le) (hstrict : Strict le l) (hnodup : l.Nodup) :
    (l.mergeSort le).Pairwise fun a b => ahead le a b = true := by
  have hperm := List.mergeSort_perm l le
  have hsorted := List.pairwise_mergeSort hle.trans hle.total l
  have hdistinct : (l.mergeSort le).Nodup := hperm.nodup_iff.mpr hnodup
  have hboth := List.pairwise_and_iff.mpr ⟨hsorted, hdistinct⟩
  apply hboth.imp_of_mem
  intro a b ha hb hab
  have hne : ¬ le b a = true := fun hba =>
    hab.2 (hstrict a (hperm.mem_iff.mp ha) b (hperm.mem_iff.mp hb) hab.1 hba)
  simp [ahead, hab.1, hne]

theorem mem_topK_iff (hle : Sorts le) (hstrict : Strict le l) (hnodup : l.Nodup) :
    x ∈ topK le k l ↔ x ∈ l ∧ l.countP (ahead le · x) < k := by
  have hperm := List.mergeSort_perm l le
  rw [topK, mem_take_iff (pairwise_ahead hle hstrict hnodup), hperm.mem_iff, hperm.countP_eq]

theorem eq_of_perm_of_ahead (hs : l.Pairwise fun a b => ahead le a b = true)
    (hs' : l'.Pairwise fun a b => ahead le a b = true) (hp : l.Perm l') : l = l' := by
  apply hp.eq_of_pairwise _ hs hs'
  intro a b _ _ hab hba
  simp only [ahead, Bool.and_eq_true, Bool.not_eq_true'] at hab hba
  rw [hab.1] at hba
  cases hba.2

theorem length_topK_le (k : Nat) (l : List α) : (topK le k l).length ≤ k := List.length_take_le _ _

theorem mem_of_mem_topK (hx : x ∈ topK le k l) : x ∈ l :=
  (List.mergeSort_perm l le).mem_iff.mp (List.mem_of_mem_take hx)

theorem map_topK_nodup {β : Type} {f : α → β} (hf : (l.map f).Nodup) (k : Nat) :
    ((topK le k l).map f).Nodup := by
  have hperm : ((l.mergeSort le).map f).Perm (l.map f) := (List.mergeSort_perm l le).map f
  rw [topK, List.map_take]
  exact (hperm.nodup_iff.mpr hf).sublist (List.take_sublist k _)

theorem topK_of_notMem (hle : Sorts le) (hx : x ∈ l) (hnot : x ∉ topK le k l) :
    (topK le k l).length = k ∧ ∀ y ∈ topK le k l, le y x = true := by
  have hmem : x ∈ (l.mergeSort le).take k ++ (l.mergeSort le).drop k := by
    rw [List.take_append_drop]
    exact (List.mergeSort_perm l le).mem_iff.mpr hx
  have hlate : x ∈ (l.mergeSort le).drop k := (List.mem_append.mp hmem).resolve_left hnot
  have hsorted := List.pairwise_mergeSort hle.trans hle.total l
  rw [← List.take_append_drop k (l.mergeSort le)] at hsorted
  constructor
  · have hpos := List.length_pos_of_mem hlate
    rw [List.length_drop] at hpos
    rw [topK, List.length_take]
    omega
  · intro y hy
    exact (List.pairwise_append.mp hsorted).2.2 y hy x hlate

theorem topK_perm (hle : Sorts le) (hstrict : Strict le l) (hnodup : l.Nodup) (hp : l.Perm l') :
    topK le k l = topK le k l' := by
  have hsorted := pairwise_ahead hle hstrict hnodup
  have hsorted' := pairwise_ahead hle (hstrict.perm hp) (hp.nodup_iff.mp hnodup)
  have hperm : (l.mergeSort le).Perm (l'.mergeSort le) :=
    (List.mergeSort_perm l le).trans (hp.trans (List.mergeSort_perm l' le).symm)
  unfold topK
  rw [eq_of_perm_of_ahead hsorted hsorted' hperm]

/-- An element that becomes better stays among the first. -/
theorem mem_topK_promote (hle : Sorts le) {pre post : List α}
    (hstrict : Strict le (pre ++ x :: post)) (hnodup : (pre ++ x :: post).Nodup)
    (hstrict' : Strict le (pre ++ y :: post)) (hnodup' : (pre ++ y :: post).Nodup)
    (hbetter : le y x = true) (hx : x ∈ topK le k (pre ++ x :: post)) :
    y ∈ topK le k (pre ++ y :: post) := by
  rw [mem_topK_iff hle hstrict hnodup] at hx
  rw [mem_topK_iff hle hstrict' hnodup']
  refine ⟨by simp, ?_⟩
  have hfewer : ∀ a, ahead le a y = true → ahead le a x = true := by
    intro a ha
    simp only [ahead, Bool.and_eq_true, Bool.not_eq_true'] at ha ⊢
    refine ⟨hle.trans a y x ha.1 hbetter, ?_⟩
    by_contra hxa
    rw [Bool.not_eq_false] at hxa
    rw [hle.trans y x a hbetter hxa] at ha
    cases ha.2
  have hcount : ∀ l : List α, l.countP (ahead le · y) ≤ l.countP (ahead le · x) := fun l =>
    List.countP_mono_left fun a _ ha => hfewer a ha
  have hpre := hcount pre
  have hpost := hcount post
  have hlt := hx.2
  simp only [List.countP_append, List.countP_cons, ahead_irrefl] at hlt ⊢
  omega

/-- Without an element that was not taken, the same ones are. -/
theorem topK_drop (hle : Sorts le) {pre post : List α}
    (hstrict : Strict le (pre ++ x :: post)) (hnodup : (pre ++ x :: post).Nodup)
    (hx : x ∉ topK le k (pre ++ x :: post)) :
    topK le k (pre ++ post) = topK le k (pre ++ x :: post) := by
  have hperm := List.mergeSort_perm (pre ++ x :: post) le
  have hsorted := pairwise_ahead hle hstrict hnodup
  have hmem : x ∈ (pre ++ x :: post).mergeSort le := hperm.mem_iff.mpr (by simp)
  obtain ⟨front, rest, hsplit⟩ := List.append_of_mem hmem
  rw [hsplit] at hperm hsorted
  have hsublist : (pre ++ post).Sublist (pre ++ x :: post) :=
    (List.Sublist.refl pre).append (List.sublist_cons_self x post)
  have hstrict' : Strict le (pre ++ post) := fun a ha b hb =>
    hstrict a (hsublist.subset ha) b (hsublist.subset hb)
  have hperm' : (front ++ rest).Perm (pre ++ post) :=
    (List.perm_middle.symm.trans (hperm.trans List.perm_middle)).cons_inv
  have hwithout : (pre ++ post).mergeSort le = front ++ rest := by
    apply eq_of_perm_of_ahead (pairwise_ahead hle hstrict' (hnodup.sublist hsublist))
    · exact hsorted.sublist ((List.Sublist.refl front).append (List.sublist_cons_self x rest))
    · exact (List.mergeSort_perm _ le).trans hperm'.symm
  have hlong : k ≤ front.length := by
    by_contra hshort
    apply hx
    rw [topK, hsplit, List.take_append]
    apply List.mem_append_right
    obtain ⟨j, hj⟩ : ∃ j, k - front.length = j + 1 := ⟨k - front.length - 1, by omega⟩
    rw [hj, List.take_succ_cons]
    exact List.mem_cons_self
  unfold topK
  rw [hwithout, hsplit, List.take_append_of_le_length hlong, List.take_append_of_le_length hlong]

end TopK

end Jitgen
