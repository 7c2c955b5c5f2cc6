import Jitgen.Framework.Prog
import Mathlib.Logic.Function.Basic

/-!
# Programs over durable state

The operations of a program act on a durable state. Between two of them the program may crash and
other programs may act. A choice stands for what the outside decides when an operation is
performed: that it fails, before or after taking effect, or what an external call answers.

A program is verified against a rely, what others may do, and a guarantee, what each of its own
operations does. Running alone is the case of the rely that nothing changes.
-/

namespace Jitgen

/-- How an operation acts under a choice of the outside. -/
abbrev Handler {Op : Type} (Ans : Op → Type) (C S : Type) := C → (o : Op) → S → Ans o × S

/-- An operation that was performed, by whom and under which choice. -/
structure Entry (ι : Type) {Op : Type} (Ans : Op → Type) (C : Type) where
  who : ι
  choice : C
  event : Event Ans

/-- The durable state and the operations performed so far, newest first. -/
structure World (ι : Type) {Op : Type} (Ans : Op → Type) (C S : Type) where
  state : S
  history : List (Entry ι Ans C)

variable {ι Op C S α β ε ε' : Type} {Ans : Op → Type}

/-- Perform one operation and record it. -/
def World.perform (exec : Handler Ans C S) (i : ι) (c : C) (o : Op) (w : World ι Ans C S) :
    Ans o × World ι Ans C S :=
  let r := exec c o w.state
  (r.1, ⟨r.2, ⟨i, c, ⟨o, r.1⟩⟩ :: w.history⟩)

@[simp] theorem World.perform_fst (exec : Handler Ans C S) (i : ι) (c : C) (o : Op)
    (w : World ι Ans C S) : (w.perform exec i c o).1 = (exec c o w.state).1 := rfl

@[simp] theorem World.perform_state (exec : Handler Ans C S) (i : ι) (c : C) (o : Op)
    (w : World ι Ans C S) : (w.perform exec i c o).2.state = (exec c o w.state).2 := rfl

@[simp] theorem World.perform_history (exec : Handler Ans C S) (i : ι) (c : C) (o : Op)
    (w : World ι Ans C S) :
    (w.perform exec i c o).2.history = ⟨i, c, ⟨o, (exec c o w.state).1⟩⟩ :: w.history := rfl

/-- What a program may assume of others and what it owes them. -/
structure Contract (ι : Type) {Op : Type} (Ans : Op → Type) (C S : Type) where
  rely : World ι Ans C S → World ι Ans C S → Prop
  guarantee : Op → World ι Ans C S → World ι Ans C S → Prop
  rely_refl : ∀ w, rely w w
  rely_trans : ∀ {w₁ w₂ w₃}, rely w₁ w₂ → rely w₂ w₃ → rely w₁ w₃

/-- The contract of a program that runs alone. -/
def Contract.alone (guarantee : Op → World ι Ans C S → World ι Ans C S → Prop) :
    Contract ι Ans C S where
  rely w w' := w' = w
  guarantee := guarantee
  rely_refl _ := rfl
  rely_trans h₁ h₂ := h₂.trans h₁

/-- The contract of a program that runs alone and keeps an invariant. -/
def Contract.keeping (I : World ι Ans C S → Prop) : Contract ι Ans C S :=
  .alone fun _ w w' => I w → I w'

namespace Prog

variable (exec : Handler Ans C S) (i : ι) (K : Contract ι Ans C S)

/-- Started in `w`, the program keeps its guarantee at every operation and ends as `Q` says,
whatever the choices and whatever others do in between. -/
def Safe (Q : α → World ι Ans C S → Prop) : Prog Ans α → World ι Ans C S → Prop
  | pure a, w => ∀ w', K.rely w w' → Q a w'
  | call o k, w => ∀ w', K.rely w w' → ∀ c, K.guarantee o w' (w'.perform exec i c o).2 ∧
      (k (w'.perform exec i c o).1).Safe Q (w'.perform exec i c o).2

variable {exec i K} {Q Q' : α → World ι Ans C S → Prop} {p : Prog Ans α} {w w' : World ι Ans C S}

theorem safe_pure {a : α} : (Prog.pure a : Prog Ans α).Safe exec i K Q w ↔
    ∀ w', K.rely w w' → Q a w' := Iff.rfl

theorem Safe.rely (h : p.Safe exec i K Q w) (hw : K.rely w w') : p.Safe exec i K Q w' := by
  cases p with
  | pure a => exact fun w'' hw' => h w'' (K.rely_trans hw hw')
  | call o k => exact fun w'' hw' => h w'' (K.rely_trans hw hw')

theorem Safe.mono (h : p.Safe exec i K Q w) (hQ : ∀ a w, Q a w → Q' a w) :
    p.Safe exec i K Q' w := by
  induction p generalizing w with
  | pure a => exact fun w' hw => hQ a w' (h w' hw)
  | call o k ih =>
    intro w' hw c
    obtain ⟨hg, hk⟩ := h w' hw c
    exact ⟨hg, ih _ hk⟩

theorem Safe.frame {F : World ι Ans C S → Prop} (h : p.Safe exec i K Q w)
    (hrely : ∀ w w', K.rely w w' → F w → F w')
    (hguar : ∀ o w w', K.guarantee o w w' → F w → F w') (hF : F w) :
    p.Safe exec i K (fun a w => Q a w ∧ F w) w := by
  induction p generalizing w with
  | pure a => exact fun w' hw => ⟨h w' hw, hrely _ _ hw hF⟩
  | call o k ih =>
    intro w' hw c
    obtain ⟨hg, hk⟩ := h w' hw c
    exact ⟨hg, ih _ hk (hguar _ _ _ hg (hrely _ _ hw hF))⟩

theorem safe_bind {f : α → Prog Ans β} {Q : β → World ι Ans C S → Prop}
    (hp : p.Safe exec i K Q' w) (hf : ∀ a w, Q' a w → (f a).Safe exec i K Q w) :
    (p.bind f).Safe exec i K Q w := by
  induction p generalizing w with
  | pure a => exact hf a w (hp w (K.rely_refl w))
  | call o k ih =>
    intro w' hw c
    obtain ⟨hg, hk⟩ := hp w' hw c
    exact ⟨hg, ih _ hk⟩

/-- Every operation the program may reach satisfies `φ`. -/
def Uses (φ : Op → Prop) : Prog Ans α → Prop
  | pure _ => True
  | call o k => φ o ∧ ∀ x, (k x).Uses φ

theorem uses_bind {φ : Op → Prop} {f : α → Prog Ans β} (hp : p.Uses φ)
    (hf : ∀ a, (f a).Uses φ) : (p.bind f).Uses φ := by
  induction p with
  | pure a => exact hf a
  | call o k ih => exact ⟨hp.1, fun x => ih x (hp.2 x)⟩

theorem Uses.mono {φ ψ : Op → Prop} (hp : p.Uses φ) (h : ∀ o, φ o → ψ o) : p.Uses ψ := by
  induction p with
  | pure a => trivial
  | call o k ih => exact ⟨h o hp.1, fun x => ih x (hp.2 x)⟩

theorem safe_of_uses {φ : Op → Prop} {I : World ι Ans C S → Prop} (hp : p.Uses φ)
    (hrely : ∀ w w', K.rely w w' → I w → I w')
    (hstep : ∀ o, φ o → ∀ w c, I w → K.guarantee o w (w.perform exec i c o).2 ∧
      I (w.perform exec i c o).2)
    (hw : I w) : p.Safe exec i K (fun _ => I) w := by
  induction p generalizing w with
  | pure a => exact fun w' hw' => hrely _ _ hw' hw
  | call o k ih =>
    intro w' hw' c
    obtain ⟨hg, hI⟩ := hstep o hp.1 w' c (hrely _ _ hw' hw)
    exact ⟨hg, ih _ (hp.2 _) hI⟩

variable (exec i) in
/-- Seen in `w'`, an execution started in `w` has either stopped at that point or returned. -/
inductive Reaches : Prog Ans α → World ι Ans C S → Option α → World ι Ans C S → Prop
  | stop (p : Prog Ans α) (w : World ι Ans C S) : Reaches p w none w
  | done (a : α) (w : World ι Ans C S) : Reaches (.pure a) w (some a) w
  | call (o : Op) (k : Ans o → Prog Ans α) (w : World ι Ans C S) (c : C) {r : Option α}
      {w' : World ι Ans C S}
      (h : Reaches (k (w.perform exec i c o).1) (w.perform exec i c o).2 r w') :
      Reaches (.call o k) w r w'

theorem Safe.reaches {I : World ι Ans C S → Prop} {r : Option α} (hp : p.Safe exec i K Q w)
    (hI : ∀ o w w', K.guarantee o w w' → I w → I w') (hr : p.Reaches exec i w r w') (hw : I w) :
    I w' ∧ ∀ a, r = some a → Q a w' := by
  induction hr with
  | stop p w => exact ⟨hw, fun a ha => nomatch ha⟩
  | done a w =>
    refine ⟨hw, ?_⟩
    rintro _ ⟨⟩
    exact hp w (K.rely_refl w)
  | call o k w c h ih =>
    obtain ⟨hg, hk⟩ := hp w (K.rely_refl w) c
    exact ih hk (hI _ _ _ hg hw)

variable (exec i) in
/-- Run under the given choices; the program crashes when they are used up. -/
def runFor : List C → Prog Ans α → World ι Ans C S → Option α × World ι Ans C S
  | _, pure a, w => (some a, w)
  | [], call _ _, w => (none, w)
  | c :: cs, call o k, w =>
    (k (w.perform exec i c o).1).runFor cs (w.perform exec i c o).2

theorem reaches_runFor (cs : List C) (p : Prog Ans α) (w : World ι Ans C S) :
    p.Reaches exec i w (p.runFor exec i cs w).1 (p.runFor exec i cs w).2 := by
  induction p generalizing cs w with
  | pure a => cases cs <;> exact .done a w
  | call o k ih =>
    cases cs with
    | nil => exact .stop _ w
    | cons c cs => exact .call o k w c (ih _ _ _)

variable (exec i) in
/-- Run to the end under one choice for every operation. -/
def runAll (c : C) : Prog Ans α → World ι Ans C S → α × World ι Ans C S
  | pure a, w => (a, w)
  | call o k, w => (k (w.perform exec i c o).1).runAll c (w.perform exec i c o).2

theorem reaches_runAll (c : C) (p : Prog Ans α) (w : World ι Ans C S) :
    p.Reaches exec i w (some (p.runAll exec i c w).1) (p.runAll exec i c w).2 := by
  induction p generalizing w with
  | pure a => exact .done a w
  | call o k ih => exact .call o k w c (ih _ _)

theorem runAll_bind (c : C) (p : Prog Ans α) (f : α → Prog Ans β) (w : World ι Ans C S) :
    (p.bind f).runAll exec i c w =
      (f (p.runAll exec i c w).1).runAll exec i c (p.runAll exec i c w).2 := by
  induction p generalizing w with
  | pure a => rfl
  | call o k ih => exact ih _ _

theorem runAll_invariant {I : World ι Ans C S → Prop} {c : C}
    (h : ∀ o w, I w → I (w.perform exec i c o).2) (p : Prog Ans α) {w : World ι Ans C S}
    (hw : I w) : I (p.runAll exec i c w).2 := by
  induction p generalizing w with
  | pure a => exact hw
  | call o k ih => exact ih _ (h o w hw)

end Prog

namespace Fallible

variable (exec : Handler Ans C S) (i : ι) (K : Contract ι Ans C S)

/-- The program keeps its guarantee and, when it returns, ends as `P` says. -/
def Safe (P : α → World ι Ans C S → Prop) (p : Fallible ε Ans α) (w : World ι Ans C S) : Prop :=
  Prog.Safe exec i K (fun (r : Except ε α) w => ∀ a, r = .ok a → P a w) p.run w

variable {exec i K} {P R : α → World ι Ans C S → Prop} {p : Fallible ε Ans α}
  {w w' : World ι Ans C S}

theorem safe_pure {a : α} (h : ∀ w', K.rely w w' → P a w') :
    (pure a : Fallible ε Ans α).Safe exec i K P w := by
  intro w' hw b hb
  cases hb
  exact h w' hw

theorem safe_throw {e : ε} : (throw e : Fallible ε Ans α).Safe exec i K P w := by
  intro w' _ a ha
  cases ha

theorem Safe.rely (h : p.Safe exec i K P w) (hw : K.rely w w') : p.Safe exec i K P w' :=
  Prog.Safe.rely h hw

theorem Safe.mono (h : p.Safe exec i K P w) (hP : ∀ a w, P a w → R a w) :
    p.Safe exec i K R w :=
  Prog.Safe.mono h fun _ _ hr a ha => hP a _ (hr a ha)

theorem Safe.frame {F : World ι Ans C S → Prop} (h : p.Safe exec i K P w)
    (hrely : ∀ w w', K.rely w w' → F w → F w')
    (hguar : ∀ o w w', K.guarantee o w w' → F w → F w') (hF : F w) :
    p.Safe exec i K (fun a w => P a w ∧ F w) w :=
  (Prog.Safe.frame h hrely hguar hF).mono fun _ _ hr a ha => ⟨hr.1 a ha, hr.2⟩

theorem safe_ofExcept {r : Except ε α} (h : ∀ a, r = .ok a → ∀ w', K.rely w w' → P a w') :
    (ofExcept r : Fallible ε Ans α).Safe exec i K P w :=
  fun w' hw a ha => h a ha w' hw

theorem safe_bind {f : α → Fallible ε Ans β} {P : β → World ι Ans C S → Prop}
    (hp : p.Safe exec i K R w) (hf : ∀ a w, R a w → (f a).Safe exec i K P w) :
    (p >>= f).Safe exec i K P w := by
  refine Prog.safe_bind (f := ExceptT.bindCont f) hp fun r w hr => ?_
  cases r with
  | error e => exact safe_throw (e := e)
  | ok a => exact hf a w (hr a rfl)

theorem safe_attempt {δ : Type} {o : Op} {wrap : δ → ε} {decode : Ans o → Except δ α}
    (h : ∀ w', K.rely w w' → ∀ c, K.guarantee o w' (w'.perform exec i c o).2 ∧
      ∀ a, decode (w'.perform exec i c o).1 = .ok a →
        ∀ w'', K.rely (w'.perform exec i c o).2 w'' → P a w'') :
    (attempt o wrap decode).Safe exec i K P w := by
  intro w' hw c
  obtain ⟨hg, hf⟩ := h w' hw c
  refine ⟨hg, ?_⟩
  cases hx : decode (w'.perform exec i c o).1 with
  | error e =>
    simp only [hx]
    exact safe_throw (e := wrap e)
  | ok a =>
    simp only [hx]
    exact safe_pure (hf a hx)

theorem safe_capture_bind {Q : Except ε α → World ι Ans C S → Prop}
    {f : Except ε α → Fallible ε' Ans β} {P : β → World ι Ans C S → Prop}
    (hp : Prog.Safe exec i K Q p.run w) (hf : ∀ r w, Q r w → (f r).Safe exec i K P w) :
    (p.capture >>= f).Safe exec i K P w := by
  refine safe_bind (R := fun r w => (f r).Safe exec i K P w) ?_ fun r w hr => hr
  refine Prog.safe_bind hp fun r w hr w' hw a ha => ?_
  cases ha
  exact (hf r w hr).rely hw

variable (exec i) in
/-- Under one choice for every operation, the program returns. -/
def Completes (c : C) (p : Fallible ε Ans α) (w : World ι Ans C S) : Prop :=
  ∃ a, (p.run.runAll exec i c w).1 = .ok a

theorem completes_pure (c : C) (a : α) (w : World ι Ans C S) :
    (pure a : Fallible ε Ans α).Completes exec i c w := ⟨a, rfl⟩

theorem runAll_attempt {δ : Type} {o : Op} {wrap : δ → ε} {decode : Ans o → Except δ α} {c : C}
    {a : α} (h : decode (exec c o w.state).1 = .ok a) :
    ((attempt o wrap decode).run.runAll exec i c w).1 = .ok a := by
  unfold attempt
  change (Prog.runAll exec i c (Prog.call o _) w).1 = _
  simp only [Prog.runAll, World.perform_fst, h]

theorem completes_attempt {δ : Type} {o : Op} {wrap : δ → ε} {decode : Ans o → Except δ α} {c : C}
    {a : α} (h : decode (exec c o w.state).1 = .ok a) :
    (attempt o wrap decode).Completes exec i c w := ⟨a, runAll_attempt h⟩

theorem completes_ofExcept {c : C} {r : Except ε α} {a : α} (h : r = .ok a) :
    (ofExcept r : Fallible ε Ans α).Completes exec i c w := ⟨a, h⟩

theorem completes_bind_end {c : C} {f : α → Fallible ε Ans β} {a : α}
    (hp : (p.run.runAll exec i c w).1 = .ok a)
    (hf : (f a).Completes exec i c (p.run.runAll exec i c w).2) :
    (p >>= f).Completes exec i c w := by
  obtain ⟨b, hb⟩ := hf
  refine ⟨b, ?_⟩
  change ((Prog.bind p.run (ExceptT.bindCont f)).runAll exec i c w).1 = _
  rw [Prog.runAll_bind, hp]
  exact hb

theorem completes_capture_bind {c : C} {f : Except ε α → Fallible ε' Ans β}
    (hf : (f (p.run.runAll exec i c w).1).Completes exec i c (p.run.runAll exec i c w).2) :
    (p.capture >>= f).Completes exec i c w := by
  have hrun : (p.capture : Fallible ε' Ans (Except ε α)).run.runAll exec i c w =
      (.ok (p.run.runAll exec i c w).1, (p.run.runAll exec i c w).2) := by
    change (Prog.bind p.run fun r => Prog.pure (.ok r : Except ε' (Except ε α))).runAll exec i c w = _
    rw [Prog.runAll_bind]
    rfl
  refine completes_bind_end (a := (p.run.runAll exec i c w).1) (by rw [hrun]) ?_
  rw [hrun]
  exact hf

theorem completes_bind {c : C} {f : α → Fallible ε Ans β} (hsafe : p.Safe exec i K P w)
    (hp : p.Completes exec i c w) (hf : ∀ a w, P a w → (f a).Completes exec i c w) :
    (p >>= f).Completes exec i c w := by
  obtain ⟨a, ha⟩ := hp
  have hpost := (hsafe.reaches (I := fun _ => True) (fun _ _ _ _ _ => trivial)
    (Prog.reaches_runAll c p.run w) trivial).2 _ rfl a ha
  exact completes_bind_end ha (hf a _ hpost)

/-- Every operation the program may reach satisfies `φ`. -/
def Uses (φ : Op → Prop) (p : Fallible ε Ans α) : Prop := Prog.Uses φ p.run

variable {φ : Op → Prop}

theorem uses_pure (a : α) : (pure a : Fallible ε Ans α).Uses φ := trivial

theorem uses_throw (e : ε) : (throw e : Fallible ε Ans α).Uses φ := trivial

theorem uses_bind {f : α → Fallible ε Ans β} (hp : p.Uses φ) (hf : ∀ a, (f a).Uses φ) :
    (p >>= f).Uses φ := by
  refine Prog.uses_bind (f := ExceptT.bindCont f) hp fun r => ?_
  cases r with
  | error e => exact uses_throw (α := β) e
  | ok a => exact hf a

theorem uses_attempt {δ : Type} {o : Op} {wrap : δ → ε} {decode : Ans o → Except δ α} (h : φ o) :
    (attempt o wrap decode).Uses φ := by
  refine ⟨h, fun x => ?_⟩
  dsimp only
  split <;> trivial

theorem uses_ofExcept (r : Except ε α) : (ofExcept r : Fallible ε Ans α).Uses φ := trivial

theorem uses_capture (hp : p.Uses φ) : (p.capture : Fallible ε' Ans (Except ε α)).Uses φ :=
  Prog.uses_bind hp fun _ => trivial

theorem Uses.mono {ψ : Op → Prop} (hp : p.Uses φ) (h : ∀ o, φ o → ψ o) : p.Uses ψ :=
  Prog.Uses.mono hp h

theorem safe_of_uses {I : World ι Ans C S → Prop} (hp : p.Uses φ)
    (hrely : ∀ w w', K.rely w w' → I w → I w')
    (hstep : ∀ o, φ o → ∀ w c, I w → K.guarantee o w (w.perform exec i c o).2 ∧
      I (w.perform exec i c o).2)
    (hw : I w) : p.Safe exec i K (fun _ => I) w :=
  (Prog.safe_of_uses hp hrely hstep hw).mono fun _ _ hI _ _ => hI

variable {I J : World ι Ans C S → Prop}

theorem keeps_of_uses (hp : p.Uses φ)
    (hI : ∀ o, φ o → ∀ w c, I w → I (w.perform exec i c o).2)
    (hJ : ∀ o, φ o → ∀ w c, J w → J (w.perform exec i c o).2) (hw : J w) :
    p.Safe exec i (.keeping I) (fun _ => J) w :=
  safe_of_uses hp (fun _ _ heq hJw => by rwa [heq]) (fun o ho w c hJw =>
    ⟨hI o ho w c, hJ o ho w c hJw⟩) hw

theorem keeps_attempt {δ : Type} {o : Op} {wrap : δ → ε} {decode : Ans o → Except δ α}
    (hI : ∀ c, I w → I (w.perform exec i c o).2)
    (hP : ∀ c a, decode (w.perform exec i c o).1 = .ok a → P a (w.perform exec i c o).2) :
    (attempt o wrap decode).Safe exec i (.keeping I) P w := by
  refine safe_attempt fun w' hw c => ?_
  obtain rfl : w' = w := hw
  refine ⟨hI c, fun a ha w'' hw' => ?_⟩
  obtain rfl : w'' = _ := hw'
  exact hP c a ha

theorem keeps_ofExcept {r : Except ε α} (h : ∀ a, r = .ok a → P a w) :
    (ofExcept r : Fallible ε Ans α).Safe exec i (.keeping I) P w := by
  refine safe_ofExcept fun a ha w' hw => ?_
  obtain rfl : w' = w := hw
  exact h a ha

theorem keeps_pure {a : α} (h : P a w) :
    (pure a : Fallible ε Ans α).Safe exec i (.keeping I) P w := by
  refine safe_pure fun w' hw => ?_
  obtain rfl : w' = w := hw
  exact h

theorem Safe.keeps {r : Option (Except ε α)} (hp : p.Safe exec i (.keeping I) P w)
    (hr : p.run.Reaches exec i w r w') (hw : I w) :
    I w' ∧ ∀ a, r = some (.ok a) → P a w' := by
  obtain ⟨hI, hP⟩ := Prog.Safe.reaches hp (I := I) (fun _ _ _ hg => hg) hr hw
  exact ⟨hI, fun a ha => hP _ ha a rfl⟩

end Fallible

/-- The programs still to run and their shared world; a crashed one is gone. -/
structure Pool (ι : Type) {Op : Type} (Ans : Op → Type) (C S α : Type) where
  threads : ι → Option (Prog Ans α)
  world : World ι Ans C S

/-- A scheduling decision. -/
inductive Move (ι C : Type) where
  | crash (i : ι)
  | act (i : ι) (c : C)

namespace Pool

variable [DecidableEq ι] (exec : Handler Ans C S)

def step (p : Pool ι Ans C S α) : Move ι C → Pool ι Ans C S α
  | .crash i => ⟨Function.update p.threads i none, p.world⟩
  | .act i c =>
    match p.threads i with
    | some (.call o k) =>
      let r := p.world.perform exec i c o
      ⟨Function.update p.threads i (some (k r.1)), r.2⟩
    | _ => p

def run (p : Pool ι Ans C S α) (moves : List (Move ι C)) : Pool ι Ans C S α :=
  moves.foldl (step exec) p

/-- Whether a program has operations left. -/
def Running (p : Pool ι Ans C S α) (i : ι) : Prop := ∃ o k, p.threads i = some (.call o k)

/-- What a program that has ended returned. -/
def result (p : Pool ι Ans C S α) (i : ι) : Option α :=
  match p.threads i with
  | some (.pure a) => some a
  | _ => none

omit [DecidableEq ι] in
theorem result_eq_some {p : Pool ι Ans C S α} {i : ι} {a : α} :
    p.result i = some a ↔ p.threads i = some (.pure a) := by
  unfold result
  split <;> simp_all

/-- Every operation performed along the moves meets the condition. -/
def Admissible (cond : Pool ι Ans C S α → ι → Op → Prop) :
    Pool ι Ans C S α → List (Move ι C) → Prop
  | _, [] => True
  | p, m :: ms => (∀ i c o k, m = .act i c → p.threads i = some (.call o k) → cond p i o) ∧
      Admissible cond (p.step exec m) ms

theorem admissible_append {cond : Pool ι Ans C S α → ι → Op → Prop} {p : Pool ι Ans C S α}
    {ms ms' : List (Move ι C)} (h : p.Admissible exec cond ms)
    (h' : (p.run exec ms).Admissible exec cond ms') : p.Admissible exec cond (ms ++ ms') := by
  induction ms generalizing p with
  | nil => exact h'
  | cons m ms ih => exact ⟨h.1, ih h.2 h'⟩

variable {exec} {K : ι → Contract ι Ans C S} {Q : ι → α → World ι Ans C S → Prop}
  {I : World ι Ans C S → Prop} {cond : Pool ι Ans C S α → ι → Op → Prop}

/-- The programs still running are safe, the ones that returned did so rightly, and the invariant
holds. -/
structure Safe (exec : Handler Ans C S) (K : ι → Contract ι Ans C S)
    (Q : ι → α → World ι Ans C S → Prop) (I : World ι Ans C S → Prop)
    (p : Pool ι Ans C S α) : Prop where
  running : ∀ i o k, p.threads i = some (.call o k) →
    (Prog.call o k).Safe exec i (K i) (Q i) p.world
  returned : ∀ i a, p.threads i = some (.pure a) → Q i a p.world
  invariant : I p.world

omit [DecidableEq ι] in
theorem Safe.start {p : Pool ι Ans C S α}
    (h : ∀ i q, p.threads i = some q → q.Safe exec i (K i) (Q i) p.world) (hw : I p.world) :
    p.Safe exec K Q I where
  running i _ _ hi := h i _ hi
  returned i _ hi := h i _ hi p.world ((K i).rely_refl _)
  invariant := hw

/-- What a pool must know of its contracts: every operation keeps the invariant and the results
already returned, and an admissible one is what the programs still running rely on. -/
structure Composes (K : ι → Contract ι Ans C S) (Q : ι → α → World ι Ans C S → Prop)
    (I : World ι Ans C S → Prop) (cond : Pool ι Ans C S α → ι → Op → Prop) : Prop where
  invariant : ∀ i o w w', (K i).guarantee o w w' → I w → I w'
  returned : ∀ i o w w', (K i).guarantee o w w' → ∀ j a, Q j a w → Q j a w'
  rely : ∀ (p : Pool ι Ans C S α) i j o w', i ≠ j → p.Running j → cond p i o →
    (K i).guarantee o p.world w' → I p.world → (K j).rely p.world w'

theorem Safe.crash {p : Pool ι Ans C S α} (h : p.Safe exec K Q I) (i : ι) :
    (p.step exec (.crash i)).Safe exec K Q I := by
  have hother : ∀ {j : ι} {q : Prog Ans α},
      (p.step exec (.crash i)).threads j = some q → p.threads j = some q := by
    intro j q hj
    by_cases hij : j = i
    · subst hij
      simp [Pool.step] at hj
    · simpa [Pool.step, hij] using hj
  exact ⟨fun j o k hj => h.running j o k (hother hj), fun j a hj => h.returned j a (hother hj),
    h.invariant⟩

/-- An operation that the other programs cope with. -/
theorem Safe.act {p : Pool ι Ans C S α} {i : ι} {c : C} (h : p.Safe exec K Q I)
    (hI : ∀ o w', (K i).guarantee o p.world w' → I p.world → I w')
    (hrunning : ∀ o k j w', p.threads i = some (.call o k) → i ≠ j → p.Running j →
      (K i).guarantee o p.world w' → I p.world → (K j).rely p.world w')
    (hreturned : ∀ o j a w', i ≠ j → (K i).guarantee o p.world w' → I p.world →
      Q j a p.world → Q j a w') :
    (p.step exec (.act i c)).Safe exec K Q I := by
  cases hi : p.threads i with
  | none => simpa only [Pool.step, hi] using h
  | some q =>
    cases q with
    | pure a => simpa only [Pool.step, hi] using h
    | call o k =>
      obtain ⟨hg, hk⟩ := h.running i o k hi p.world ((K i).rely_refl _) c
      simp only [Pool.step, hi]
      refine ⟨fun j o' k' hj => ?_, fun j a hj => ?_, hI _ _ hg h.invariant⟩
      · by_cases hij : j = i
        · subst hij
          simp only [Function.update_self, Option.some.injEq] at hj
          rw [hj] at hk
          exact hk
        · have hj' : p.threads j = some (.call o' k') := by simpa [hij] using hj
          exact (h.running j o' k' hj').rely
            (hrunning o k j _ hi (Ne.symm hij) ⟨o', k', hj'⟩ hg h.invariant)
      · by_cases hij : j = i
        · subst hij
          simp only [Function.update_self, Option.some.injEq] at hj
          rw [hj] at hk
          exact hk _ ((K j).rely_refl _)
        · have hj' : p.threads j = some (.pure a) := by simpa [hij] using hj
          exact hreturned o j a _ (Ne.symm hij) hg h.invariant (h.returned j a hj')

theorem Safe.step {p : Pool ι Ans C S α} {m : Move ι C} (h : p.Safe exec K Q I)
    (hK : Composes K Q I cond)
    (hm : ∀ i c o k, m = .act i c → p.threads i = some (.call o k) → cond p i o) :
    (p.step exec m).Safe exec K Q I := by
  cases m with
  | crash i => exact h.crash i
  | act i c =>
    exact h.act (fun o w' hg hw => hK.invariant i o _ w' hg hw)
      (fun o k j w' hi hij hj hg hw => hK.rely p i j o w' hij hj (hm i c o k rfl hi) hg hw)
      fun o j a w' _ hg _ hq => hK.returned i o _ w' hg j a hq

theorem Safe.run {p : Pool ι Ans C S α} {moves : List (Move ι C)} (h : p.Safe exec K Q I)
    (hK : Composes K Q I cond) (hadm : p.Admissible exec cond moves) :
    (p.run exec moves).Safe exec K Q I := by
  induction moves generalizing p with
  | nil => exact h
  | cons m ms ih => exact ih (h.step hK hadm.1) hadm.2

/-- What a pool must know of contracts whose operations disturb nobody. -/
structure Coexist (K : ι → Contract ι Ans C S) (Q : ι → α → World ι Ans C S → Prop)
    (I : World ι Ans C S → Prop) : Prop where
  invariant : ∀ i o w w', (K i).guarantee o w w' → I w → I w'
  rely : ∀ i j o w w', i ≠ j → (K i).guarantee o w w' → I w → (K j).rely w w'
  returned : ∀ i a w w', (K i).rely w w' → Q i a w → Q i a w'

theorem Safe.run_of_coexist {p : Pool ι Ans C S α} (h : p.Safe exec K Q I) (hK : Coexist K Q I)
    (moves : List (Move ι C)) : (p.run exec moves).Safe exec K Q I := by
  induction moves generalizing p with
  | nil => exact h
  | cons m ms ih =>
    apply ih
    cases m with
    | crash i => exact h.crash i
    | act i c =>
      exact h.act (fun o w' hg hw => hK.invariant i o _ w' hg hw)
        (fun o _ j w' _ hij _ hg hw => hK.rely i j o _ w' hij hg hw)
        fun o j a w' hij hg hw hq => hK.returned j a _ w' (hK.rely i j o _ w' hij hg hw) hq

end Pool

end Jitgen
