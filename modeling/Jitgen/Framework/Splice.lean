import Mathlib.Algebra.GroupWithZero.Nat
import Mathlib.Data.List.Infix
import Mathlib.Data.List.Pairwise
import Mathlib.Data.List.Basic

/-!
# Replacing ranges of a list

An edit replaces the elements that stand at a position. Edits that fit a list and are in order
describe another list, and moving their pure insertions one place up changes it unless the inserted
elements repeat the one they follow.
-/

namespace Jitgen

/-- Replace `old`, which stands at `start`, by `new`. -/
structure Edit (α : Type) where
  start : Nat
  old : List α
  new : List α
  deriving DecidableEq

namespace Edit

variable {α : Type} {orig : List α} {e f : Edit α} {es : List (Edit α)} {a b c : Nat}

def stop (e : Edit α) : Nat := e.start + e.old.length

/-- Every edit replaces what stands at its position, and the edits are in order and disjoint. -/
structure Applicable (orig : List α) (es : List (Edit α)) : Prop where
  inside : ∀ e ∈ es, e.start ≤ orig.length
  replaces : ∀ e ∈ es, e.old <+: orig.drop e.start
  ordered : es.Pairwise fun e f => e.stop ≤ f.start

/-- The elements from position `a` up to position `b`. -/
def between (xs : List α) (a b : Nat) : List α := (xs.drop a).take (b - a)

/-- What the edits make of the elements from `cursor` on. -/
def splice (orig : List α) : (cursor : Nat) → List (Edit α) → List α
  | cursor, [] => orig.drop cursor
  | cursor, e :: es => between orig cursor e.start ++ e.new ++ splice orig e.stop es

@[simp] theorem between_self (xs : List α) (a : Nat) : between xs a a = [] := by
  simp [between]

theorem between_append (xs : List α) (hab : a ≤ b) (hbc : b ≤ c) :
    between xs a b ++ between xs b c = between xs a c := by
  have hdrop : xs.drop b = (xs.drop a).drop (b - a) := by
    rw [List.drop_drop]
    congr 1
    omega
  have hlen : c - a = (b - a) + (c - b) := by omega
  rw [between, between, between, hdrop, hlen, List.take_add]

theorem between_drop (xs : List α) (hab : a ≤ b) : between xs a b ++ xs.drop b = xs.drop a := by
  have hdrop : xs.drop b = (xs.drop a).drop (b - a) := by
    rw [List.drop_drop]
    congr 1
    omega
  rw [between, hdrop, List.take_append_drop]

theorem between_succ {xs : List α} {x : α} (h : xs[a]? = some x) : between xs a (a + 1) = [x] := by
  obtain ⟨ha, rfl⟩ := List.getElem?_eq_some_iff.mp h
  rw [between, List.drop_eq_getElem_cons ha, Nat.add_sub_cancel_left]
  rfl

theorem mem_splice {x : α} (h : x ∈ splice orig c es) : x ∈ orig ∨ ∃ e ∈ es, x ∈ e.new := by
  induction es generalizing c with
  | nil => exact .inl (List.mem_of_mem_drop h)
  | cons e es ih =>
    rw [splice, List.mem_append, List.mem_append] at h
    rcases h with (h | h) | h
    · exact .inl (List.mem_of_mem_drop (List.mem_of_mem_take h))
    · exact .inr ⟨e, by simp, h⟩
    · rcases ih h with h | ⟨f, hf, h⟩
      · exact .inl h
      · exact .inr ⟨f, by simp [hf], h⟩

theorem applicable_nil (orig : List α) : Applicable orig [] :=
  ⟨by simp, by simp, List.Pairwise.nil⟩

theorem applicable_cons : Applicable orig (e :: es) ↔
    e.start ≤ orig.length ∧ e.old <+: orig.drop e.start ∧ (∀ f ∈ es, e.stop ≤ f.start) ∧
      Applicable orig es := by
  constructor
  · intro h
    have hpair := List.pairwise_cons.mp h.ordered
    exact ⟨h.inside e (by simp), h.replaces e (by simp), hpair.1,
      fun f hf => h.inside f (by simp [hf]), fun f hf => h.replaces f (by simp [hf]), hpair.2⟩
  · intro h
    obtain ⟨hin, hrep, hlater, hes⟩ := h
    constructor
    · intro f hf
      rcases List.mem_cons.mp hf with rfl | hf
      · exact hin
      · exact hes.inside f hf
    · intro f hf
      rcases List.mem_cons.mp hf with rfl | hf
      · exact hrep
      · exact hes.replaces f hf
    · exact List.pairwise_cons.mpr ⟨hlater, hes.ordered⟩

theorem drop_start (hrep : e.old <+: orig.drop e.start) :
    orig.drop e.start = e.old ++ orig.drop e.stop := by
  obtain ⟨t, ht⟩ := hrep
  have hdrop : orig.drop e.stop = (orig.drop e.start).drop e.old.length := by
    rw [List.drop_drop, stop]
  rw [hdrop, ← ht, List.drop_left]

theorem splice_total (m : α → Nat) (hes : Applicable orig es) (hafter : ∀ e ∈ es, c ≤ e.start) :
    ((splice orig c es).map m).sum + (es.map fun e => (e.old.map m).sum).sum =
      ((orig.drop c).map m).sum + (es.map fun e => (e.new.map m).sum).sum := by
  induction es generalizing c with
  | nil => simp [splice]
  | cons e es ih =>
    obtain ⟨-, hrep, hlater, hes⟩ := applicable_cons.mp hes
    have hrest := ih hes hlater
    rw [splice, ← between_drop orig (hafter e (by simp)), drop_start hrep]
    simp only [List.map_append, List.sum_append, List.map_cons, List.sum_cons]
    omega

theorem splice_length (hes : Applicable orig es) (hafter : ∀ e ∈ es, c ≤ e.start) :
    (splice orig c es).length + (es.map fun e => e.old.length).sum =
      (orig.drop c).length + (es.map fun e => e.new.length).sum := by
  simpa using splice_total (fun _ => 1) hes hafter

/-- The edit, with a pure insertion moved before the element it follows. -/
def earlier (e : Edit α) : Edit α := if e.old = [] then { e with start := e.start - 1 } else e

theorem earlier_of_nil (h : e.old = []) : e.earlier = { e with start := e.start - 1 } := by
  simp [earlier, h]

theorem earlier_of_ne_nil (h : e.old ≠ []) : e.earlier = e := by
  simp [earlier, h]

@[simp] theorem earlier_old (e : Edit α) : e.earlier.old = e.old := by
  unfold earlier
  split <;> rfl

@[simp] theorem earlier_new (e : Edit α) : e.earlier.new = e.new := by
  unfold earlier
  split <;> rfl

/-- Edits in order stay in order unless an insertion directly follows an edit that ends on the
element it is inserted after. -/
theorem applicable_earlier_iff (hes : Applicable orig es) :
    Applicable orig (es.map earlier) ↔
      es.Pairwise fun e f => f.old = [] → e.old ≠ [] → e.stop ≠ f.start := by
  have hinside : ∀ f ∈ es.map earlier, f.start ≤ orig.length := by
    intro f hf
    obtain ⟨e, he, rfl⟩ := List.mem_map.mp hf
    have := hes.inside e he
    unfold earlier
    split
    · dsimp only
      omega
    · assumption
  have hreplaces : ∀ f ∈ es.map earlier, f.old <+: orig.drop f.start := by
    intro f hf
    obtain ⟨e, he, rfl⟩ := List.mem_map.mp hf
    have hrep := hes.replaces e he
    by_cases hold : e.old = []
    · simp [hold]
    · rwa [earlier_of_ne_nil hold]
  have hpair : (∀ {e f : Edit α}, e.stop ≤ f.start →
      (e.earlier.stop ≤ f.earlier.start ↔ (f.old = [] → e.old ≠ [] → e.stop ≠ f.start))) := by
    intro e f hef
    by_cases hf : f.old = [] <;> by_cases he : e.old = []
    · simp only [earlier_of_nil hf, earlier_of_nil he, stop, he, List.length_nil] at hef ⊢
      simp
      omega
    · have hlen : 0 < e.old.length := List.length_pos_iff.mpr he
      simp only [earlier_of_nil hf, earlier_of_ne_nil he, stop] at hef ⊢
      simp only [hf, he, ne_eq, not_false_eq_true, true_implies]
      omega
    · simp only [earlier_of_ne_nil hf, earlier_of_nil he, hf, stop, he, List.length_nil] at hef ⊢
      simp
      omega
    · simpa [earlier_of_ne_nil hf, earlier_of_ne_nil he, hf] using hef
  constructor
  · intro h
    have hmap := List.pairwise_map.mp h.ordered
    exact (hes.ordered.and hmap).imp fun h => (hpair h.1).mp h.2
  · intro h
    refine ⟨hinside, hreplaces, List.pairwise_map.mpr ?_⟩
    exact (hes.ordered.and h).imp fun h => (hpair h.1).mpr h.2

/-- Edits whose insertions were moved up fit as declared if and only if every insertion is inside
and no later edit stands before it. -/
theorem applicable_iff_earlier (hes : Applicable orig (es.map earlier)) :
    Applicable orig es ↔ (∀ e ∈ es, e.old = [] → e.start ≤ orig.length) ∧
      es.Pairwise fun e f => e.old = [] → e.start ≤ f.start := by
  have hmap := List.pairwise_map.mp hes.ordered
  constructor
  · intro h
    refine ⟨fun e he _ => h.inside e he, h.ordered.imp ?_⟩
    intro e f hef hold
    simpa [stop, hold] using hef
  · intro h
    obtain ⟨hinside, hlater⟩ := h
    constructor
    · intro e he
      by_cases hold : e.old = []
      · exact hinside e he hold
      · have := hes.inside e.earlier (List.mem_map_of_mem he)
        rwa [earlier_of_ne_nil hold] at this
    · intro e he
      by_cases hold : e.old = []
      · simp [hold]
      · have := hes.replaces e.earlier (List.mem_map_of_mem he)
        rwa [earlier_of_ne_nil hold] at this
    · refine (hmap.and hlater).imp ?_
      intro e f h
      obtain ⟨hef, hlater⟩ := h
      by_cases he : e.old = []
      · simpa [stop, he] using hlater he
      · rw [earlier_of_ne_nil he] at hef
        have : f.earlier.start ≤ f.start := by
          unfold earlier
          split
          · exact Nat.sub_le _ _
          · exact le_rfl
        omega

theorem splice_earlier_length (hes : Applicable orig es) (hes' : Applicable orig (es.map earlier)) :
    (splice orig 0 (es.map earlier)).length = (splice orig 0 es).length := by
  have hlen := splice_length hes (c := 0) (by simp)
  have hlen' := splice_length hes' (c := 0) (by simp)
  have hold : (es.map earlier).map (fun e => e.old.length) = es.map fun e => e.old.length := by
    simp
  have hnew : (es.map earlier).map (fun e => e.new.length) = es.map fun e => e.new.length := by
    simp
  rw [hold, hnew] at hlen'
  omega

theorem append_eq_cons_append_iff {x : α} {new rest rest' : List α} :
    new ++ rest' = x :: (new ++ rest) ↔ (∀ y ∈ new, y = x) ∧ rest' = x :: rest := by
  induction new with
  | nil => simp
  | cons y new ih =>
    rw [List.cons_append, List.cons_append, List.cons.injEq, List.forall_mem_cons]
    constructor
    · intro h
      obtain ⟨rfl, h⟩ := h
      have := ih.mp h
      exact ⟨⟨rfl, this.1⟩, this.2⟩
    · intro h
      obtain ⟨⟨rfl, hall⟩, hrest⟩ := h
      exact ⟨rfl, ih.mpr ⟨hall, hrest⟩⟩

/-- The insertions repeat the element they follow. -/
def Repeats (orig : List α) (es : List (Edit α)) : Prop :=
  ∀ e ∈ es, e.old = [] → 0 < e.start → ∀ x ∈ e.new, orig[e.start - 1]? = some x

theorem splice_earlier_from (hes : Applicable orig es)
    (hes' : Applicable orig (es.map earlier)) {d : Nat} (hcc : c ≤ d)
    (hafter : ∀ e ∈ es, d ≤ e.start) (hafter' : ∀ e ∈ es, c ≤ e.earlier.start) :
    splice orig c (es.map earlier) = between orig c d ++ splice orig d es ↔
      Repeats orig es := by
  induction es generalizing c d with
  | nil => simp [splice, between_drop orig hcc, Repeats]
  | cons e es ih =>
    obtain ⟨hin, hrep, hlater, hes⟩ := applicable_cons.mp hes
    rw [List.map_cons] at hes'
    obtain ⟨-, -, hlater', hes'⟩ := applicable_cons.mp hes'
    have hlater'' : ∀ f ∈ es, e.earlier.stop ≤ f.earlier.start := fun f hf =>
      hlater' f.earlier (List.mem_map_of_mem hf)
    have hce := hafter e (by simp)
    have hce' := hafter' e (by simp)
    have hmem : Repeats orig (e :: es) ↔
        (e.old = [] → 0 < e.start → ∀ x ∈ e.new, orig[e.start - 1]? = some x) ∧
          Repeats orig es := by
      simp [Repeats]
    have hleft : between orig c d ++ splice orig d (e :: es) =
        between orig c e.start ++ (e.new ++ splice orig e.stop es) := by
      rw [splice, ← between_append orig hcc hce]
      simp only [List.append_assoc]
    rw [hmem, hleft, List.map_cons, splice, earlier_new]
    by_cases hmoved : e.old = [] ∧ 0 < e.start
    · obtain ⟨hold, hpos⟩ := hmoved
      rw [earlier_of_nil hold] at hce' hlater'' ⊢
      dsimp only at hce' ⊢
      obtain ⟨x, hx⟩ : ∃ x, orig[e.start - 1]? = some x :=
        ⟨_, List.getElem?_eq_getElem (by omega)⟩
      have hlast : between orig c e.start = between orig c (e.start - 1) ++ [x] := by
        rw [← between_append orig hce' (Nat.sub_le _ 1)]
        have := between_succ hx
        rw [Nat.sub_add_cancel hpos] at this
        rw [this]
      have hstop : stop { e with start := e.start - 1 } = e.start - 1 := by simp [stop, hold]
      have hstop' : e.stop = e.start := by simp [stop, hold]
      have hrest := ih hes hes' (c := e.start - 1) (d := e.start) (Nat.sub_le _ _)
        (fun f hf => hstop' ▸ hlater f hf) (fun f hf => hstop ▸ hlater'' f hf)
      rw [hlast, hstop, hstop', List.append_assoc, List.append_assoc, List.append_cancel_left_eq,
        List.singleton_append, append_eq_cons_append_iff, hx]
      have hbetween : between orig (e.start - 1) e.start = [x] := by
        have := between_succ hx
        rwa [Nat.sub_add_cancel hpos] at this
      rw [hbetween, List.singleton_append] at hrest
      rw [hrest]
      simp [hold, hpos, eq_comm]
    · have hsame : e.earlier = e := by
        by_cases hold : e.old = []
        · have hzero : e.start = 0 := by
            by_contra hne
            exact hmoved ⟨hold, Nat.pos_of_ne_zero hne⟩
          rw [earlier_of_nil hold]
          cases e
          simp_all
        · exact earlier_of_ne_nil hold
      rw [hsame] at hlater'' ⊢
      have hrest := ih hes hes' (c := e.stop) (d := e.stop) le_rfl hlater hlater''
      rw [between_self, List.nil_append] at hrest
      rw [List.append_assoc, List.append_cancel_left_eq, List.append_cancel_left_eq, hrest]
      constructor
      · intro h
        exact ⟨fun hold hpos => absurd ⟨hold, hpos⟩ hmoved, h⟩
      · exact fun h => h.2

theorem splice_earlier_iff (hes : Applicable orig es) (hes' : Applicable orig (es.map earlier)) :
    splice orig 0 (es.map earlier) = splice orig 0 es ↔ Repeats orig es := by
  have := splice_earlier_from hes hes' (c := 0) (d := 0) le_rfl (by simp) (by simp)
  simpa using this

end Edit

end Jitgen
