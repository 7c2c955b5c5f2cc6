import Mathlib.Data.Sigma.Basic
import Mathlib.Data.List.Basic

/-!
# Programs over an answering environment

A program is a tree of calls whose answers come from outside. A trace records the calls with their
answers; every answer is allowed unless an environment fixes it, so a fact about all traces holds
against every environment, also one that answers the same call differently each time.
-/

namespace Jitgen

/-- A program returning an `α`, whose operation `o` is answered by an `Ans o`. -/
inductive Prog {Op : Type} (Ans : Op → Type) (α : Type) : Type where
  | pure (a : α) : Prog Ans α
  | call (o : Op) (k : Ans o → Prog Ans α) : Prog Ans α

/-- One call with the answer it got. -/
abbrev Event {Op : Type} (Ans : Op → Type) := (o : Op) × Ans o

abbrev Trace {Op : Type} (Ans : Op → Type) := List (Event Ans)

/-- An environment may answer by the whole history. -/
abbrev Env {Op : Type} (Ans : Op → Type) := Trace Ans → (o : Op) → Ans o

namespace Prog

variable {Op : Type} {Ans : Op → Type} {α β γ : Type}

protected def bind : Prog Ans α → (α → Prog Ans β) → Prog Ans β
  | pure a, f => f a
  | call o k, f => call o fun x => (k x).bind f

instance : Monad (Prog Ans) where
  pure := Prog.pure
  bind := Prog.bind

@[simp] theorem pure_bind' (a : α) (f : α → Prog Ans β) : (Prog.pure a).bind f = f a := rfl

@[simp] theorem call_bind (o : Op) (k : Ans o → Prog Ans α) (f : α → Prog Ans β) :
    (Prog.call o k).bind f = Prog.call o fun x => (k x).bind f := rfl

/-- Ask one operation and return its answer. -/
def ask (o : Op) : Prog Ans (Ans o) := call o pure

/-- The program can make the calls of `t`, in order and with those answers, and then return `r`. -/
def Runs : Prog Ans α → Trace Ans → α → Prop
  | pure a, t, r => t = [] ∧ r = a
  | call o k, t, r => ∃ x t', t = ⟨o, x⟩ :: t' ∧ (k x).Runs t' r

@[simp] theorem runs_pure (a : α) (t : Trace Ans) (r : α) :
    (Prog.pure a).Runs t r ↔ t = [] ∧ r = a := Iff.rfl

@[simp] theorem runs_call (o : Op) (k : Ans o → Prog Ans α) (t : Trace Ans) (r : α) :
    (Prog.call o k).Runs t r ↔ ∃ x t', t = ⟨o, x⟩ :: t' ∧ (k x).Runs t' r := Iff.rfl

theorem runs_bind {p : Prog Ans α} {f : α → Prog Ans β} {t : Trace Ans} {r : β} :
    (p.bind f).Runs t r ↔ ∃ t₁ t₂ a, t = t₁ ++ t₂ ∧ p.Runs t₁ a ∧ (f a).Runs t₂ r := by
  induction p generalizing t with
  | pure a => simp
  | call o k ih =>
    simp only [call_bind, runs_call, ih]
    constructor
    · rintro ⟨x, t', rfl, t₁, t₂, a, rfl, h₁, h₂⟩
      exact ⟨⟨o, x⟩ :: t₁, t₂, a, rfl, ⟨x, t₁, rfl, h₁⟩, h₂⟩
    · rintro ⟨_, t₂, a, rfl, ⟨x, t₁, rfl, h₁⟩, h₂⟩
      exact ⟨x, t₁ ++ t₂, rfl, t₁, t₂, a, rfl, h₁, h₂⟩

/-- Result and new events of a run whose history so far is `h`. -/
def run (env : Env Ans) : Prog Ans α → Trace Ans → α × Trace Ans
  | pure a, _ => (a, [])
  | call o k, h =>
    let x := env h o
    let r := (k x).run env (h ++ [⟨o, x⟩])
    (r.1, ⟨o, x⟩ :: r.2)

theorem runs_run (env : Env Ans) (p : Prog Ans α) (h : Trace Ans) :
    p.Runs (p.run env h).2 (p.run env h).1 := by
  induction p generalizing h with
  | pure a => exact ⟨rfl, rfl⟩
  | call o k ih => exact ⟨env h o, _, rfl, ih _ _⟩

theorem run_bind (env : Env Ans) (p : Prog Ans α) (f : α → Prog Ans β) (h : Trace Ans) :
    (p.bind f).run env h =
      (((f (p.run env h).1).run env (h ++ (p.run env h).2)).1,
        (p.run env h).2 ++ ((f (p.run env h).1).run env (h ++ (p.run env h).2)).2) := by
  induction p generalizing h with
  | pure a => simp [run]
  | call o k ih => simp [run, ih]

theorem answer_of_mem_run {env : Env Ans} {p : Prog Ans α} {h : Trace Ans} {e : Event Ans}
    (he : e ∈ (p.run env h).2) : ∃ h', e.2 = env h' e.1 := by
  induction p generalizing h with
  | pure a => cases he
  | call o k ih =>
    simp only [run] at he
    rcases List.mem_cons.mp he with rfl | he
    · exact ⟨h, rfl⟩
    · exact ih _ he

theorem run_congr {env₁ env₂ : Env Ans} (φ : Op → Prop)
    (hagree : ∀ h o, φ o → env₁ h o = env₂ h o) (p : Prog Ans α) (h : Trace Ans)
    (hcalls : ∀ e ∈ (p.run env₁ h).2, φ e.1) : p.run env₁ h = p.run env₂ h := by
  induction p generalizing h with
  | pure a => rfl
  | call o k ih =>
    have ho : env₁ h o = env₂ h o := hagree h o (hcalls ⟨o, env₁ h o⟩ (by simp [run]))
    have hk := ih (env₁ h o) (h ++ [⟨o, env₁ h o⟩]) fun e he => hcalls e (by simp [run, he])
    simp only [run, hk, ← ho]

/-- A program over some of the operations of a larger system. -/
def hoist {Op' : Type} {Ans' : Op' → Type} (f : Op → Op') :
    Prog (fun o => Ans' (f o)) α → Prog Ans' α
  | pure a => pure a
  | call o k => call (f o) fun x => (k x).hoist f

/-- An event as the larger system sees it. -/
def hoistEvent {Op' : Type} {Ans' : Op' → Type} (f : Op → Op') (e : Event fun o => Ans' (f o)) :
    Event Ans' := ⟨f e.1, e.2⟩

theorem runs_hoist {Op' : Type} {Ans' : Op' → Type} {f : Op → Op'}
    {p : Prog (fun o => Ans' (f o)) α} {t : Trace Ans'} {r : α} :
    (p.hoist f).Runs t r ↔ ∃ t₀, t = t₀.map (hoistEvent f) ∧ p.Runs t₀ r := by
  induction p generalizing t with
  | pure a =>
    constructor
    · intro h
      exact ⟨[], h.1, rfl, h.2⟩
    · rintro ⟨t₀, rfl, rfl, rfl⟩
      exact ⟨rfl, rfl⟩
  | call o k ih =>
    constructor
    · rintro ⟨x, t', rfl, h⟩
      obtain ⟨t₀, rfl, h₀⟩ := (ih x).mp h
      exact ⟨⟨o, x⟩ :: t₀, rfl, x, t₀, rfl, h₀⟩
    · rintro ⟨t₀, rfl, x, t₁, rfl, h₁⟩
      exact ⟨x, t₁.map (hoistEvent f), rfl, (ih x).mpr ⟨t₁, rfl, h₁⟩⟩

end Prog

/-- A program that returns an `α` or stops with an `ε`. -/
abbrev Fallible {Op : Type} (ε : Type) (Ans : Op → Type) (α : Type) := ExceptT ε (Prog Ans) α

namespace Fallible

variable {Op : Type} {Ans : Op → Type} {ε ε' α β : Type}

/-- Some run makes the calls of `t` and ends with `r`, a value or an error. -/
def Runs (p : Fallible ε Ans α) (t : Trace Ans) (r : Except ε α) : Prop := Prog.Runs p.run t r

/-- Some run makes the calls of `t` and returns `a`. -/
def Returns (p : Fallible ε Ans α) (t : Trace Ans) (a : α) : Prop := p.Runs t (.ok a)

theorem runs_bind {p : Fallible ε Ans α} {f : α → Fallible ε Ans β} {t : Trace Ans}
    {r : Except ε β} :
    (p >>= f).Runs t r ↔
      (∃ e, r = .error e ∧ p.Runs t (.error e)) ∨
      ∃ t₁ t₂ a, t = t₁ ++ t₂ ∧ p.Returns t₁ a ∧ (f a).Runs t₂ r := by
  unfold Runs Returns
  change Prog.Runs (Prog.bind p.run (ExceptT.bindCont f)) t r ↔ _
  rw [Prog.runs_bind]
  constructor
  · rintro ⟨t₁, t₂, a, rfl, h₁, h₂⟩
    cases a with
    | ok a => exact .inr ⟨t₁, t₂, a, rfl, h₁, h₂⟩
    | error e =>
      obtain ⟨rfl, rfl⟩ := h₂
      exact .inl ⟨e, rfl, by simpa using h₁⟩
  · rintro (⟨e, rfl, h⟩ | ⟨t₁, t₂, a, rfl, h₁, h₂⟩)
    · exact ⟨t, [], .error e, by simp, h, rfl, rfl⟩
    · exact ⟨t₁, t₂, .ok a, rfl, h₁, h₂⟩

@[simp] theorem runs_pure {a : α} {t : Trace Ans} {r : Except ε α} :
    (pure a : Fallible ε Ans α).Runs t r ↔ t = [] ∧ r = .ok a := Iff.rfl

@[simp] theorem runs_throw {e : ε} {t : Trace Ans} {r : Except ε α} :
    (throw e : Fallible ε Ans α).Runs t r ↔ t = [] ∧ r = .error e := Iff.rfl

theorem returns_bind {p : Fallible ε Ans α} {f : α → Fallible ε Ans β} {t : Trace Ans} {b : β} :
    (p >>= f).Returns t b ↔
      ∃ t₁ t₂ a, t = t₁ ++ t₂ ∧ p.Returns t₁ a ∧ (f a).Returns t₂ b := by
  unfold Returns
  rw [runs_bind]
  simp [Returns]

@[simp] theorem returns_pure {a b : α} {t : Trace Ans} :
    (pure a : Fallible ε Ans α).Returns t b ↔ t = [] ∧ b = a := by
  simp [Returns]

@[simp] theorem returns_throw {e : ε} {t : Trace Ans} {a : α} :
    ¬ (throw e : Fallible ε Ans α).Returns t a := by
  simp [Returns]

/-- Call an operation whose answer may itself be an error, and rethrow it as `wrap` says. -/
def attempt {δ : Type} (o : Op) (wrap : δ → ε) (decode : Ans o → Except δ α) :
    Fallible ε Ans α :=
  ExceptT.mk <| Prog.call o fun x =>
    match decode x with
    | .ok a => Prog.pure (.ok a)
    | .error e => Prog.pure (.error (wrap e))

theorem runs_attempt {δ : Type} {o : Op} {wrap : δ → ε} {decode : Ans o → Except δ α}
    {t : Trace Ans} {r : Except ε α} :
    (attempt o wrap decode).Runs t r ↔
      ∃ x, t = [⟨o, x⟩] ∧ r = (decode x).mapError wrap := by
  unfold Runs attempt
  change Prog.Runs (Prog.call o _) t r ↔ _
  simp only [Prog.runs_call]
  refine exists_congr fun x => ?_
  cases hx : decode x <;> simp [Except.mapError]

theorem returns_attempt {δ : Type} {o : Op} {wrap : δ → ε} {decode : Ans o → Except δ α}
    {t : Trace Ans} {a : α} :
    (attempt o wrap decode).Returns t a ↔ ∃ x, t = [⟨o, x⟩] ∧ decode x = .ok a := by
  unfold Returns
  rw [runs_attempt]
  refine exists_congr fun x => and_congr_right fun _ => ?_
  cases hx : decode x <;> simp [Except.mapError, eq_comm]

theorem run_bind_ok {env : Env Ans} {p : Fallible ε Ans α} {f : α → Fallible ε Ans β}
    {h : Trace Ans} {a : α} (hp : (p.run.run env h).1 = .ok a) :
    ((p >>= f).run.run env h).1 = ((f a).run.run env (h ++ (p.run.run env h).2)).1 := by
  show ((Prog.bind p.run (ExceptT.bindCont f)).run env h).1 = _
  rw [Prog.run_bind, hp]
  rfl

theorem run_attempt_ok {δ : Type} {env : Env Ans} {o : Op} {wrap : δ → ε}
    {decode : Ans o → Except δ α} {h : Trace Ans} {a : α} (hx : decode (env h o) = .ok a) :
    ((attempt o wrap decode).run.run env h).1 = .ok a := by
  show (Prog.run env (Prog.call o _) h).1 = _
  simp [Prog.run, hx]

/-- Turn the errors of a program into errors of its caller. -/
def mapError (wrap : ε → ε') (p : Fallible ε Ans α) : Fallible ε' Ans α :=
  ExceptT.mk <| Prog.bind p.run fun r => Prog.pure (r.mapError wrap)

theorem runs_mapError {wrap : ε → ε'} {p : Fallible ε Ans α} {t : Trace Ans}
    {r : Except ε' α} :
    (p.mapError wrap).Runs t r ↔ ∃ r', p.Runs t r' ∧ r = r'.mapError wrap := by
  unfold Runs mapError
  change Prog.Runs (Prog.bind p.run _) t r ↔ _
  rw [Prog.runs_bind]
  constructor
  · rintro ⟨t₁, t₂, a, rfl, h, rfl, rfl⟩
    exact ⟨a, by simpa using h, rfl⟩
  · rintro ⟨r', h, rfl⟩
    exact ⟨t, [], r', by simp, h, rfl, rfl⟩

theorem returns_mapError {wrap : ε → ε'} {p : Fallible ε Ans α} {t : Trace Ans} {a : α} :
    (p.mapError wrap).Returns t a ↔ p.Returns t a := by
  unfold Returns
  rw [runs_mapError]
  constructor
  · rintro ⟨r', h, hr⟩
    cases r' with
    | ok b => cases hr; exact h
    | error e => cases hr
  · intro h
    exact ⟨_, h, rfl⟩

/-- Run a program and hand its error to the caller as a value. -/
def capture (p : Fallible ε Ans α) : Fallible ε' Ans (Except ε α) :=
  ExceptT.mk <| Prog.bind p.run fun r => Prog.pure (.ok r)

theorem returns_capture {p : Fallible ε Ans α} {t : Trace Ans} {r : Except ε α} :
    (p.capture : Fallible ε' Ans (Except ε α)).Returns t r ↔ p.Runs t r := by
  unfold Returns Runs capture
  change Prog.Runs (Prog.bind p.run _) t _ ↔ _
  rw [Prog.runs_bind]
  constructor
  · rintro ⟨t₁, t₂, a, rfl, h, rfl, hr⟩
    cases hr
    simpa using h
  · intro h
    exact ⟨t, [], r, by simp, h, rfl, rfl⟩

/-- A result that needs no call. -/
def ofExcept (r : Except ε α) : Fallible ε Ans α := ExceptT.mk (Prog.pure r)

theorem returns_ofExcept {r : Except ε α} {t : Trace Ans} {a : α} :
    (ofExcept r : Fallible ε Ans α).Returns t a ↔ t = [] ∧ r = .ok a := by
  unfold Returns Runs ofExcept
  exact and_congr_right fun _ => eq_comm

/-- A program over some of the operations of a larger system. -/
def hoist {Op' : Type} {Ans' : Op' → Type} (f : Op → Op')
    (p : Fallible ε (fun o => Ans' (f o)) α) : Fallible ε Ans' α :=
  ExceptT.mk (Prog.hoist f p.run)

theorem returns_hoist {Op' : Type} {Ans' : Op' → Type} {f : Op → Op'}
    {p : Fallible ε (fun o => Ans' (f o)) α} {t : Trace Ans'} {a : α} :
    (p.hoist f).Returns t a ↔ ∃ t₀, t = t₀.map (Prog.hoistEvent f) ∧ p.Returns t₀ a :=
  Prog.runs_hoist

/-- Run a program that cannot fail. -/
def lift (p : Prog Ans α) : Fallible ε Ans α := ExceptT.mk <| Prog.bind p fun a => Prog.pure (.ok a)

theorem runs_lift {p : Prog Ans α} {t : Trace Ans} {r : Except ε α} :
    (lift p : Fallible ε Ans α).Runs t r ↔ ∃ a, r = .ok a ∧ p.Runs t a := by
  unfold Runs lift
  change Prog.Runs (Prog.bind p _) t r ↔ _
  rw [Prog.runs_bind]
  constructor
  · rintro ⟨t₁, t₂, a, rfl, h, rfl, rfl⟩
    exact ⟨a, rfl, by simpa using h⟩
  · rintro ⟨a, rfl, h⟩
    exact ⟨t, [], a, by simp, h, rfl, rfl⟩

theorem returns_lift {p : Prog Ans α} {t : Trace Ans} {a : α} :
    (lift p : Fallible ε Ans α).Returns t a ↔ p.Runs t a := by
  unfold Returns
  rw [runs_lift]
  simp

/-- Every call of every run satisfies `φ`, also in a run that ends with an error. -/
def Calls (φ : Event Ans → Prop) (p : Fallible ε Ans α) : Prop :=
  ∀ t r, p.Runs t r → ∀ e ∈ t, φ e

variable {φ : Event Ans → Prop}

theorem calls_pure (a : α) : Calls φ (pure a : Fallible ε Ans α) := by
  rintro t r ⟨rfl, -⟩ e he
  cases he

theorem calls_throw (e : ε) : Calls φ (throw e : Fallible ε Ans α) := by
  rintro t r ⟨rfl, -⟩ e he
  cases he

theorem calls_attempt {δ : Type} {o : Op} {wrap : δ → ε} {decode : Ans o → Except δ α}
    (h : ∀ x, φ ⟨o, x⟩) : Calls φ (attempt o wrap decode) := by
  intro t r hr e he
  obtain ⟨x, rfl, -⟩ := runs_attempt.mp hr
  rw [List.mem_singleton.mp he]
  exact h x

theorem calls_bind {p : Fallible ε Ans α} {f : α → Fallible ε Ans β} (hp : Calls φ p)
    (hf : ∀ t a, p.Returns t a → Calls φ (f a)) : Calls φ (p >>= f) := by
  intro t r hr
  rcases runs_bind.mp hr with ⟨e, -, h⟩ | ⟨t₁, t₂, a, rfl, h₁, h₂⟩
  · exact hp _ _ h
  · intro e he
    rcases List.mem_append.mp he with he | he
    · exact hp _ _ h₁ e he
    · exact hf _ _ h₁ _ _ h₂ e he

theorem Calls.mono {ψ : Event Ans → Prop} {p : Fallible ε Ans α} (hp : Calls φ p)
    (h : ∀ e, φ e → ψ e) : Calls ψ p :=
  fun t r hr e he => h e (hp t r hr e he)

theorem calls_ofExcept (r : Except ε α) : Calls φ (ofExcept r : Fallible ε Ans α) := by
  intro t r' hr e he
  obtain ⟨rfl, -⟩ := hr
  cases he

theorem calls_capture {p : Fallible ε Ans α} (hp : Calls φ p) :
    Calls φ (p.capture : Fallible ε' Ans (Except ε α)) := by
  intro t r hr
  obtain ⟨t₁, t₂, a, rfl, h, rfl, -⟩ := Prog.runs_bind.mp hr
  rw [List.append_nil]
  exact hp _ _ h

theorem calls_lift {p : Prog Ans α} (hp : ∀ t a, p.Runs t a → ∀ e ∈ t, φ e) :
    Calls φ (lift p : Fallible ε Ans α) := by
  intro t r hr
  obtain ⟨a, -, h⟩ := runs_lift.mp hr
  exact hp _ _ h

theorem calls_mapError {wrap : ε → ε'} {p : Fallible ε Ans α} (hp : Calls φ p) :
    Calls φ (p.mapError wrap) := by
  intro t r hr
  obtain ⟨r', h, -⟩ := runs_mapError.mp hr
  exact hp _ _ h

theorem calls_hoist {Op' : Type} {Ans' : Op' → Type} {f : Op → Op'} {φ : Event Ans' → Prop}
    {p : Fallible ε (fun o => Ans' (f o)) α} (h : ∀ o x, φ ⟨f o, x⟩) : Calls φ (p.hoist f) := by
  intro t r hr e he
  obtain ⟨t₀, rfl, -⟩ := Prog.runs_hoist.mp hr
  obtain ⟨e₀, -, rfl⟩ := List.mem_map.mp he
  exact h e₀.1 e₀.2

/-- Every call satisfies `φ` in a run all of whose events satisfy `A`. -/
def CallsGiven (A φ : Event Ans → Prop) (p : Fallible ε Ans α) : Prop :=
  ∀ t r, p.Runs t r → (∀ e ∈ t, A e) → ∀ e ∈ t, φ e

variable {A : Event Ans → Prop}

theorem Calls.given {p : Fallible ε Ans α} (hp : Calls φ p) : CallsGiven A φ p :=
  fun t r hr _ => hp t r hr

theorem CallsGiven.mono {B ψ : Event Ans → Prop} {p : Fallible ε Ans α} (hp : CallsGiven A φ p)
    (hA : ∀ e, B e → A e) (hφ : ∀ e, φ e → ψ e) : CallsGiven B ψ p :=
  fun t r hr hB e he => hφ e (hp t r hr (fun e he => hA e (hB e he)) e he)

theorem callsGiven_bind {p : Fallible ε Ans α} {f : α → Fallible ε Ans β}
    (hp : CallsGiven A φ p)
    (hf : ∀ t a, p.Returns t a → (∀ e ∈ t, A e) → CallsGiven A φ (f a)) :
    CallsGiven A φ (p >>= f) := by
  intro t r hr hA
  rcases runs_bind.mp hr with ⟨e, -, h⟩ | ⟨t₁, t₂, a, rfl, h₁, h₂⟩
  · exact hp _ _ h hA
  · have hA₁ : ∀ e ∈ t₁, A e := fun e he => hA e (List.mem_append_left _ he)
    have hA₂ : ∀ e ∈ t₂, A e := fun e he => hA e (List.mem_append_right _ he)
    intro e he
    rcases List.mem_append.mp he with he | he
    · exact hp _ _ h₁ hA₁ e he
    · exact hf _ _ h₁ hA₁ _ _ h₂ hA₂ e he

theorem callsGiven_capture {p : Fallible ε Ans α} (hp : CallsGiven A φ p) :
    CallsGiven A φ (p.capture : Fallible ε' Ans (Except ε α)) := by
  intro t r hr
  obtain ⟨t₁, t₂, a, rfl, h, rfl, -⟩ := Prog.runs_bind.mp hr
  rw [List.append_nil]
  exact hp _ _ h

theorem callsGiven_mapError {wrap : ε → ε'} {p : Fallible ε Ans α} (hp : CallsGiven A φ p) :
    CallsGiven A φ (p.mapError wrap) := by
  intro t r hr
  obtain ⟨r', h, -⟩ := runs_mapError.mp hr
  exact hp _ _ h

theorem callsGiven_hoist {Op' : Type} {Ans' : Op' → Type} {f : Op → Op'} {A φ : Event Ans' → Prop}
    {p : Fallible ε (fun o => Ans' (f o)) α}
    (hp : CallsGiven (fun e => A (Prog.hoistEvent f e)) (fun e => φ (Prog.hoistEvent f e)) p) :
    CallsGiven A φ (p.hoist f) := by
  intro t r hr hA e he
  obtain ⟨t₀, rfl, h⟩ := Prog.runs_hoist.mp hr
  obtain ⟨e₀, he₀, rfl⟩ := List.mem_map.mp he
  exact hp _ _ h (fun e' he' => hA _ (List.mem_map_of_mem he')) e₀ he₀

theorem calls_foldlM {f : β → α → Fallible ε Ans β} {l : List α} (b : β)
    (h : ∀ b, ∀ a ∈ l, Calls φ (f b a)) : Calls φ (l.foldlM f b) := by
  induction l generalizing b with
  | nil => exact calls_pure b
  | cons a l ih =>
    rw [List.foldlM_cons]
    exact calls_bind (h b a (by simp)) fun _ b' _ => ih b' fun b'' a' ha' => h b'' a' (by simp [ha'])

theorem returns_foldlM {f : β → α → Fallible ε Ans β} {P : Trace Ans → β → Prop} {l : List α}
    {t₀ t : Trace Ans} {b b' : β} (h₀ : P t₀ b)
    (hstep : ∀ t₁ t₂ b b', ∀ a ∈ l, P t₁ b → (f b a).Returns t₂ b' → P (t₁ ++ t₂) b')
    (hr : (l.foldlM f b).Returns t b') : P (t₀ ++ t) b' := by
  induction l generalizing b t t₀ with
  | nil =>
    obtain ⟨rfl, rfl⟩ := returns_pure.mp hr
    simpa using h₀
  | cons a l ih =>
    rw [List.foldlM_cons] at hr
    obtain ⟨t₁, t₂, b₁, rfl, h₁, h₂⟩ := returns_bind.mp hr
    rw [← List.append_assoc]
    exact ih (hstep _ _ _ _ a (by simp) h₀ h₁)
      (fun t₁ t₂ b b' a' ha' => hstep t₁ t₂ b b' a' (by simp [ha'])) h₂

/-- Some run returns `a`. -/
def MayReturn (p : Fallible ε Ans α) (a : α) : Prop := ∃ t, p.Returns t a

theorem mayReturn_pure (a : α) : MayReturn (pure a : Fallible ε Ans α) a := ⟨[], rfl, rfl⟩

theorem mayReturn_bind {p : Fallible ε Ans α} {f : α → Fallible ε Ans β} {a : α} {b : β}
    (hp : MayReturn p a) (hf : MayReturn (f a) b) : MayReturn (p >>= f) b := by
  obtain ⟨t₁, h₁⟩ := hp
  obtain ⟨t₂, h₂⟩ := hf
  exact ⟨t₁ ++ t₂, returns_bind.mpr ⟨t₁, t₂, a, rfl, h₁, h₂⟩⟩

theorem mayReturn_ite_pos {c : Prop} [Decidable c] {p q : Fallible ε Ans α} {a : α} (hc : c)
    (h : MayReturn p a) : MayReturn (if c then p else q) a := by
  rwa [if_pos hc]

theorem mayReturn_ite_neg {c : Prop} [Decidable c] {p q : Fallible ε Ans α} {a : α} (hc : ¬ c)
    (h : MayReturn q a) : MayReturn (if c then p else q) a := by
  rwa [if_neg hc]

end Fallible

end Jitgen
