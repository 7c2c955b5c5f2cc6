import Jitgen.Framework.Prog

/-!
# Calls guarded by what went before

What a program may call can depend on the calls before and their answers. The rules follow the
composition of programs, up to a client whose every call is itself served by a program.
-/

namespace Jitgen

namespace Prog

variable {Op Op' : Type} {Ans : Op → Type} {Ans' : Op' → Type} {α β : Type}

/-- Every call satisfies `φ` together with the events before it, which begin with the given ones. -/
def Guarded (φ : Trace Ans → Op → Prop) : Trace Ans → Prog Ans α → Prop
  | _, pure _ => True
  | h, call o k => φ h o ∧ ∀ x, (k x).Guarded φ (h ++ [⟨o, x⟩])

variable {φ ψ : Trace Ans → Op → Prop} {h t t₁ t₂ : Trace Ans} {p : Prog Ans α} {r : α}

theorem guarded_pure (a : α) : (Prog.pure a : Prog Ans α).Guarded φ h := trivial

theorem guarded_ask {o : Op} (ho : φ h o) : (Prog.ask o : Prog Ans (Ans o)).Guarded φ h :=
  ⟨ho, fun _ => trivial⟩

theorem guarded_bind {f : α → Prog Ans β} (hp : p.Guarded φ h)
    (hf : ∀ t a, p.Runs t a → (f a).Guarded φ (h ++ t)) : (p.bind f).Guarded φ h := by
  induction p generalizing h with
  | pure a =>
    have hrest := hf [] a ⟨rfl, rfl⟩
    rwa [List.append_nil] at hrest
  | call o k ih =>
    refine ⟨hp.1, fun x => ih x (hp.2 x) fun t a hr => ?_⟩
    have hrest := hf (⟨o, x⟩ :: t) a ⟨x, t, rfl, hr⟩
    rwa [List.append_assoc]

theorem Guarded.mono (hp : p.Guarded φ h) (hφ : ∀ h o, φ h o → ψ h o) : p.Guarded ψ h := by
  induction p generalizing h with
  | pure a => trivial
  | call o k ih => exact ⟨hφ h o hp.1, fun x => ih x (hp.2 x)⟩

theorem Guarded.call_of_runs (hp : p.Guarded φ h) {e : Event Ans}
    (hr : p.Runs (t₁ ++ e :: t₂) r) : φ (h ++ t₁) e.1 := by
  induction p generalizing h t₁ with
  | pure a =>
    obtain ⟨hnil, -⟩ := hr
    simp at hnil
  | call o k ih =>
    obtain ⟨x, t', ht, hr'⟩ := hr
    cases t₁ with
    | nil =>
      cases ht
      rw [List.append_nil]
      exact hp.1
    | cons e₁ t₁ =>
      cases ht
      have hrest := ih x (hp.2 x) hr'
      rwa [List.append_assoc] at hrest

theorem runs_unique {r' : α} (hr : p.Runs t r) (hr' : p.Runs t r') : r = r' := by
  induction p generalizing t with
  | pure a => exact hr.2.trans hr'.2.symm
  | call o k ih =>
    obtain ⟨x, t', rfl, hk⟩ := hr
    obtain ⟨x', t'', heq, hk'⟩ := hr'
    cases heq
    exact ih x hk hk'

/-- What a program returns when every operation always has the same answer. -/
def eval (answers : (o : Op) → Ans o) : Prog Ans α → α
  | pure a => a
  | call o k => (k (answers o)).eval answers

variable {answers : (o : Op) → Ans o}

theorem eval_bind (p : Prog Ans α) (f : α → Prog Ans β) :
    (p.bind f).eval answers = (f (p.eval answers)).eval answers := by
  induction p with
  | pure a => rfl
  | call o k ih => exact ih _

theorem eval_do (p : Prog Ans α) (f : α → Prog Ans β) :
    (p >>= f).eval answers = (f (p.eval answers)).eval answers := eval_bind p f

theorem eval_hoist {Ans' : Op' → Type} {f : Op → Op'} {answers : (o : Op') → Ans' o}
    (p : Prog (fun o => Ans' (f o)) α) :
    (p.hoist f).eval answers = p.eval fun o => answers (f o) := by
  induction p with
  | pure a => rfl
  | call o k ih => exact ih _

/-- Serve each call of a client by a program of its own. -/
def serve (f : (o : Op') → Prog Ans (Ans' o)) : Prog Ans' α → Prog Ans α
  | pure a => pure a
  | call o k => (f o).bind fun x => (k x).serve f

theorem guarded_serve {I : Trace Ans → Prop} {f : (o : Op') → Prog Ans (Ans' o)}
    (hf : ∀ o h, I h → (f o).Guarded φ h) (hI : ∀ o h t x, I h → (f o).Runs t x → I (h ++ t))
    (client : Prog Ans' α) (hh : I h) : (client.serve f).Guarded φ h := by
  induction client generalizing h with
  | pure a => trivial
  | call o k ih =>
    apply guarded_bind (hf o h hh)
    intro t x hr
    exact ih x (hI o h t x hh hr)

end Prog

namespace Fallible

variable {Op : Type} {Ans : Op → Type} {ε ε' α β : Type} {φ : Trace Ans → Op → Prop}
  {h : Trace Ans}

/-- Every call satisfies `φ` together with the events before it. -/
def Guarded (φ : Trace Ans → Op → Prop) (h : Trace Ans) (p : Fallible ε Ans α) : Prop :=
  Prog.Guarded φ h p.run

theorem guarded_pure (a : α) : Guarded φ h (pure a : Fallible ε Ans α) := trivial

theorem guarded_throw (e : ε) : Guarded φ h (throw e : Fallible ε Ans α) := trivial

theorem guarded_ofExcept (r : Except ε α) : Guarded φ h (ofExcept r : Fallible ε Ans α) := trivial

theorem guarded_attempt {δ : Type} {o : Op} {wrap : δ → ε} {decode : Ans o → Except δ α}
    (ho : φ h o) : Guarded φ h (attempt o wrap decode) := by
  refine ⟨ho, fun x => ?_⟩
  dsimp only
  split <;> trivial

theorem guarded_lift {p : Prog Ans α} (hp : p.Guarded φ h) :
    Guarded φ h (lift p : Fallible ε Ans α) :=
  Prog.guarded_bind hp fun _ _ _ => trivial

theorem guarded_bind {p : Fallible ε Ans α} {f : α → Fallible ε Ans β} (hp : Guarded φ h p)
    (hf : ∀ t a, p.Returns t a → Guarded φ (h ++ t) (f a)) : Guarded φ h (p >>= f) := by
  refine Prog.guarded_bind (f := ExceptT.bindCont f) hp fun t r hr => ?_
  cases r with
  | error e => exact guarded_throw (α := β) e
  | ok a => exact hf t a hr

theorem Guarded.mono {ψ : Trace Ans → Op → Prop} {p : Fallible ε Ans α} (hp : Guarded φ h p)
    (hφ : ∀ h o, φ h o → ψ h o) : Guarded ψ h p :=
  Prog.Guarded.mono hp hφ

theorem Guarded.of_mem {K : Op → Prop} {p : Fallible ε Ans α} {t : Trace Ans} {r : Except ε α}
    (hp : Guarded (fun _ => K) [] p) (hr : p.Runs t r) : ∀ e ∈ t, K e.1 := by
  intro e he
  obtain ⟨u, w, rfl⟩ := List.append_of_mem he
  exact Prog.Guarded.call_of_runs hp hr

/-- What a program that may fail comes to when every operation always has the same answer. -/
def eval (answers : (o : Op) → Ans o) (p : Fallible ε Ans α) : Except ε α := p.run.eval answers

section

variable {answers : (o : Op) → Ans o}

theorem eval_bind (p : Fallible ε Ans α) (f : α → Fallible ε Ans β) :
    (p >>= f).eval answers = (p.eval answers).bind fun a => (f a).eval answers := by
  unfold eval
  change (Prog.bind p.run (ExceptT.bindCont f)).eval answers = _
  rw [Prog.eval_bind]
  cases Prog.eval answers p.run <;> rfl

theorem eval_lift (p : Prog Ans α) :
    (lift p : Fallible ε Ans α).eval answers = .ok (p.eval answers) := by
  unfold eval lift
  change (Prog.bind p fun a => Prog.pure (Except.ok a)).eval answers = _
  rw [Prog.eval_bind]
  rfl

theorem eval_ofExcept (r : Except ε α) : (ofExcept r : Fallible ε Ans α).eval answers = r := rfl

end

/-- Every error of every run satisfies `φ`. -/
def Throws (φ : ε → Prop) (p : Fallible ε Ans α) : Prop := ∀ t e, p.Runs t (.error e) → φ e

variable {φ : ε → Prop}

theorem throws_pure (a : α) : Throws φ (pure a : Fallible ε Ans α) := by
  rintro t e ⟨-, he⟩
  cases he

theorem throws_throw {e : ε} (he : φ e) : Throws φ (throw e : Fallible ε Ans α) := by
  rintro t e' ⟨-, he'⟩
  cases he'
  exact he

theorem throws_lift {p : Prog Ans α} : Throws φ (lift p : Fallible ε Ans α) := by
  intro t e hr
  obtain ⟨_, he, -⟩ := runs_lift.mp hr
  cases he

theorem throws_ofExcept {r : Except ε α} (hr : ∀ e, r = .error e → φ e) :
    Throws φ (ofExcept r : Fallible ε Ans α) := by
  rintro t e ⟨-, he⟩
  exact hr e he.symm

theorem throws_attempt {δ : Type} {o : Op} {wrap : δ → ε} {decode : Ans o → Except δ α}
    (h : ∀ x d, decode x = .error d → φ (wrap d)) : Throws φ (attempt o wrap decode) := by
  intro t e hr
  obtain ⟨x, -, he⟩ := runs_attempt.mp hr
  cases hx : decode x with
  | ok a =>
    rw [hx] at he
    cases he
  | error d =>
    rw [hx] at he
    cases he
    exact h x d hx

theorem throws_bind {p : Fallible ε Ans α} {f : α → Fallible ε Ans β} (hp : Throws φ p)
    (hf : ∀ a, Throws φ (f a)) : Throws φ (p >>= f) := by
  intro t e hr
  rcases runs_bind.mp hr with ⟨e', he, hr⟩ | ⟨_, t₂, a, rfl, -, hr⟩
  · cases he
    exact hp t e hr
  · exact hf a t₂ e hr

end Fallible

end Jitgen
