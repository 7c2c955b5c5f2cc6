import Jitgen.Framework.Prog
import Mathlib.Algebra.BigOperators.Group.List.Basic
import Mathlib.Algebra.Order.Monoid.Prod
import Mathlib.Algebra.Order.Monoid.Unbundled.Pow

/-!
# What a program costs

Every operation has a price in an ordered monoid. A bound holds of every run, also of one that ends
with an error, so that it holds whatever the environment answers.
-/

namespace Jitgen

variable {Op : Type} {Ans : Op → Type} {C : Type} [AddCommMonoid C]

/-- The price of all calls of a trace. -/
def Trace.cost (price : Op → C) (t : Trace Ans) : C := (t.map fun e => price e.1).sum

variable {price : Op → C}

@[simp] theorem Trace.cost_nil : Trace.cost price ([] : Trace Ans) = 0 := rfl

@[simp] theorem Trace.cost_append (t t' : Trace Ans) :
    Trace.cost price (t ++ t') = Trace.cost price t + Trace.cost price t' := by
  simp [Trace.cost]

@[simp] theorem Trace.cost_singleton (e : Event Ans) :
    Trace.cost price [e] = price e.1 := by
  simp [Trace.cost]

namespace Fallible

variable {ε ε' α β : Type} [PartialOrder C] {c d : C}

/-- Every run costs `c` at most. -/
def AtMost (price : Op → C) (c : C) (p : Fallible ε Ans α) : Prop :=
  ∀ t r, p.Runs t r → Trace.cost price t ≤ c

theorem AtMost.mono {p : Fallible ε Ans α} (hp : AtMost price c p) (h : c ≤ d) :
    AtMost price d p :=
  fun t r hr => (hp t r hr).trans h

theorem atMost_attempt {δ : Type} {o : Op} {wrap : δ → ε} {decode : Ans o → Except δ α} :
    AtMost price (price o) (attempt o wrap decode) := by
  intro t r hr
  have ⟨x, ht, _⟩ := runs_attempt.mp hr
  rw [ht, Trace.cost_singleton]

theorem atMost_lift {p : Prog Ans α} (hp : ∀ t a, p.Runs t a → Trace.cost price t ≤ c) :
    AtMost price c (lift p : Fallible ε Ans α) := by
  intro t r hr
  have ⟨a, _, h⟩ := runs_lift.mp hr
  exact hp t a h

variable [CanonicallyOrderedAdd C]

theorem atMost_pure (a : α) : AtMost price c (pure a : Fallible ε Ans α) := by
  intro t r hr
  rw [(runs_pure.mp hr).1]
  exact zero_le

theorem atMost_throw (e : ε) : AtMost price c (throw e : Fallible ε Ans α) := by
  intro t r hr
  rw [(runs_throw.mp hr).1]
  exact zero_le

variable [IsOrderedAddMonoid C]

theorem atMost_bind {p : Fallible ε Ans α} {f : α → Fallible ε Ans β} (hp : AtMost price c p)
    (hf : ∀ t a, p.Returns t a → AtMost price d (f a)) : AtMost price (c + d) (p >>= f) := by
  intro t r hr
  rcases runs_bind.mp hr with ⟨e, _, h⟩ | ⟨t₁, t₂, a, ht, h₁, h₂⟩
  · exact (hp t _ h).trans le_self_add
  · rw [ht, Trace.cost_append]
    exact add_le_add (hp t₁ _ h₁) (hf t₁ a h₁ t₂ r h₂)

theorem atMost_bind_pure {p : Fallible ε Ans α} {f : α → β} (hp : AtMost price c p) :
    AtMost price c (p >>= fun a => pure (f a)) := by
  have h : AtMost price (c + 0) (p >>= fun a => pure (f a)) :=
    atMost_bind hp fun _ _ _ => atMost_pure _
  rw [add_zero] at h
  exact h

theorem atMost_foldlM {f : β → α → Fallible ε Ans β} {l : List α} {n : Nat}
    (hf : ∀ b, ∀ a ∈ l, AtMost price c (f b a)) (hn : l.length ≤ n) (b : β) :
    AtMost price (n • c) (l.foldlM f b) := by
  have hall : ∀ b, AtMost price (l.length • c) (l.foldlM f b) := by
    clear hn
    induction l with
    | nil => exact fun b => atMost_pure b
    | cons a l ih =>
      intro b
      rw [List.length_cons, succ_nsmul']
      exact atMost_bind (hf b a List.mem_cons_self) fun _ b' _ =>
        ih (fun b a ha => hf b a (List.mem_cons_of_mem _ ha)) b'
  exact (hall b).mono (nsmul_le_nsmul_left zero_le hn)

end Fallible

end Jitgen
