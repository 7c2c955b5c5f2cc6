import Jitgen.Framework.Guarded
import Jitgen.Framework.Durable

/-!
# Names that are taken exclusively

Several programs take names, work on what stands under them and give them back. A name is taken only
where nothing stands under it, and a program touches nothing but what it holds. Then nobody disturbs
another, and at the end only what could not be given back is left.
-/

namespace Jitgen

variable {ι Op C S N V α β ε ε' : Type} {Ans : Op → Type}

/-- The operations of one program, newest first. -/
def ownEvents [DecidableEq ι] (i : ι) (h : List (Entry ι Ans C)) : List (Event Ans) :=
  h.filterMap fun e => if e.who = i then some e.event else none

section

variable [DecidableEq ι] {exec : Handler Ans C S} {i j : ι} {c : C} {o : Op} {w : World ι Ans C S}

@[simp] theorem ownEvents_perform : ownEvents i (w.perform exec i c o).2.history =
    ⟨o, (exec c o w.state).1⟩ :: ownEvents i w.history := by
  simp [ownEvents]

theorem ownEvents_perform_other (hij : j ≠ i) :
    ownEvents j (w.perform exec i c o).2.history = ownEvents j w.history := by
  simp [ownEvents, hij.symm]

end

/-- What stands under a name, the events that take and give back a name, and the choices under which
a name that is given back may be left standing. -/
structure Leases {Op : Type} (Ans : Op → Type) (C S N V : Type) where
  entry : S → N → Option V
  taken : Event Ans → Option N
  given : Event Ans → Option N
  leaves : C → Prop

namespace Leases

variable (L : Leases Ans C S N V)

/-- The program has taken the name and not given it back since. -/
def Holds (i : ι) (n : N) : List (Entry ι Ans C) → Prop
  | [] => False
  | e :: h => (e.who = i ∧ L.taken e.event = some n) ∨
      (Holds i n h ∧ ¬ (e.who = i ∧ L.given e.event = some n))

/-- The name is held after these operations of one program. -/
def Held (n : N) : List (Event Ans) → Prop
  | [] => False
  | e :: es => L.taken e = some n ∨ (Held n es ∧ ¬ L.given e = some n)

theorem holds_congr [DecidableEq ι] {i : ι} {n : N} {h h' : List (Entry ι Ans C)}
    (heq : ownEvents i h = ownEvents i h') : L.Holds i n h ↔ L.Holds i n h' := by
  have hown : ∀ h : List (Entry ι Ans C), L.Holds i n h ↔ L.Held n (ownEvents i h) := by
    intro h
    induction h with
    | nil => rfl
    | cons e h ih =>
      by_cases hi : e.who = i
      · simp [Holds, Held, ownEvents, hi, ih]
      · simp [Holds, ownEvents, hi, ih]
  rw [hown h, hown h', heq]

/-- What one operation of a program may do. -/
structure Step (exec : Handler Ans C S) (i : ι) (c : C) (o : Op) (w : World ι Ans C S) : Prop where
  takes : ∀ n, L.taken ⟨o, (exec c o w.state).1⟩ = some n →
    L.entry w.state n = none ∧ L.entry (exec c o w.state).2 n ≠ none
  gives : ∀ n, L.given ⟨o, (exec c o w.state).1⟩ = some n → L.Holds i n w.history ∧
    (¬ L.leaves c → L.entry (exec c o w.state).2 n = none)
  stands : ∀ n, L.entry w.state n ≠ none → L.given ⟨o, (exec c o w.state).1⟩ ≠ some n →
    L.entry (exec c o w.state).2 n ≠ none
  others : ∀ n, ¬ L.Holds i n w.history → L.taken ⟨o, (exec c o w.state).1⟩ ≠ some n →
    L.entry (exec c o w.state).2 n = L.entry w.state n

/-- The names that are held stand, each is held once, and everything else is as it was at the
start, but for what could not be given back. -/
structure Sound (base : S) (w : World ι Ans C S) : Prop where
  standing : ∀ i n, L.Holds i n w.history → L.entry w.state n ≠ none ∧ L.entry base n = none
  apart : ∀ i j n, L.Holds i n w.history → L.Holds j n w.history → i = j
  kept : ∀ n v, L.entry base n = some v → L.entry w.state n = some v
  accounted : ∀ n, L.entry w.state n ≠ none → L.entry base n ≠ none ∨
    (∃ i, L.Holds i n w.history) ∨ ∃ e ∈ w.history, L.given e.event = some n ∧ L.leaves e.choice

variable {L} {exec : Handler Ans C S} {i j : ι} {c : C} {o : Op} {w : World ι Ans C S} {base : S}
  {n : N}

theorem holds_perform : L.Holds j n (w.perform exec i c o).2.history ↔
    (i = j ∧ L.taken ⟨o, (exec c o w.state).1⟩ = some n) ∨
      (L.Holds j n w.history ∧ ¬ (i = j ∧ L.given ⟨o, (exec c o w.state).1⟩ = some n)) := Iff.rfl

theorem holds_perform_neutral (htaken : L.taken ⟨o, (exec c o w.state).1⟩ = none)
    (hgiven : L.given ⟨o, (exec c o w.state).1⟩ = none) :
    L.Holds j n (w.perform exec i c o).2.history ↔ L.Holds j n w.history := by
  rw [holds_perform, htaken, hgiven]
  simp

theorem Sound.start (base : S) : L.Sound (ι := ι) base ⟨base, []⟩ where
  standing := fun _ _ h => h.elim
  apart := fun _ _ _ h => h.elim
  kept := fun _ _ h => h
  accounted := fun _ h => .inl h

theorem Step.still (hentry : ∀ n, L.entry (exec c o w.state).2 n = L.entry w.state n)
    (htaken : L.taken ⟨o, (exec c o w.state).1⟩ = none)
    (hgiven : L.given ⟨o, (exec c o w.state).1⟩ = none) : L.Step exec i c o w where
  takes := by
    intro n hn
    rw [htaken] at hn
    cases hn
  gives := by
    intro n hn
    rw [hgiven] at hn
    cases hn
  stands := by
    intro n hn _
    rw [hentry]
    exact hn
  others := fun n _ _ => hentry n

/-- An operation on one name, which the program takes now or holds already. -/
theorem Step.single (n : N)
    (hother : ∀ m, m ≠ n → L.entry (exec c o w.state).2 m = L.entry w.state m)
    (htaken : ∀ m, L.taken ⟨o, (exec c o w.state).1⟩ = some m →
      m = n ∧ L.entry w.state n = none ∧ L.entry (exec c o w.state).2 n ≠ none)
    (hgiven : ∀ m, L.given ⟨o, (exec c o w.state).1⟩ = some m → m = n ∧
      L.Holds i n w.history ∧ (¬ L.leaves c → L.entry (exec c o w.state).2 n = none))
    (hstands : L.entry w.state n ≠ none → L.given ⟨o, (exec c o w.state).1⟩ ≠ some n →
      L.entry (exec c o w.state).2 n ≠ none)
    (hheld : L.taken ⟨o, (exec c o w.state).1⟩ = some n ∨ L.Holds i n w.history) :
    L.Step exec i c o w where
  takes := by
    intro m hm
    obtain ⟨rfl, hfree, hstands⟩ := htaken m hm
    exact ⟨hfree, hstands⟩
  gives := by
    intro m hm
    obtain ⟨rfl, hholds, hgone⟩ := hgiven m hm
    exact ⟨hholds, hgone⟩
  stands := by
    intro m hm hkeeps
    by_cases heq : m = n
    · subst heq
      exact hstands hm hkeeps
    · rw [hother m heq]
      exact hm
  others := by
    intro m hnot hfresh
    apply hother m
    intro heq
    subst heq
    exact hheld.elim hfresh hnot

theorem Step.frame (hstep : L.Step exec i c o w) (hnot : ¬ L.Holds i n w.history)
    (hstands : L.entry w.state n ≠ none) :
    L.entry (exec c o w.state).2 n = L.entry w.state n := by
  apply hstep.others n hnot
  intro htaken
  exact hstands (hstep.takes n htaken).1

theorem Sound.step (hw : L.Sound base w) (hstep : L.Step exec i c o w) :
    L.Sound base (w.perform exec i c o).2 where
  standing := by
    intro j n hj
    rw [World.perform_state]
    rcases holds_perform.mp hj with ⟨rfl, htaken⟩ | ⟨hj, hkeeps⟩
    · obtain ⟨hfree, hstands⟩ := hstep.takes n htaken
      refine ⟨hstands, ?_⟩
      by_contra hsome
      obtain ⟨v, hv⟩ := Option.ne_none_iff_exists'.mp hsome
      rw [hw.kept n v hv] at hfree
      cases hfree
    · obtain ⟨hstands, hbase⟩ := hw.standing j n hj
      refine ⟨?_, hbase⟩
      by_cases hij : i = j
      · subst hij
        exact hstep.stands n hstands fun hgiven => hkeeps ⟨rfl, hgiven⟩
      · rw [hstep.frame (fun hi => hij (hw.apart i j n hi hj)) hstands]
        exact hstands
  apart := by
    intro j k n hj hk
    rcases holds_perform.mp hj with ⟨rfl, htaken⟩ | ⟨hj, -⟩
    · rcases holds_perform.mp hk with ⟨rfl, -⟩ | ⟨hk, -⟩
      · rfl
      · exact absurd (hstep.takes n htaken).1 (hw.standing k n hk).1
    · rcases holds_perform.mp hk with ⟨rfl, htaken⟩ | ⟨hk, -⟩
      · exact absurd (hstep.takes n htaken).1 (hw.standing j n hj).1
      · exact hw.apart j k n hj hk
  kept := by
    intro n v hv
    have hstands := hw.kept n v hv
    have hnot : ¬ L.Holds i n w.history := by
      intro hi
      rw [(hw.standing i n hi).2] at hv
      cases hv
    rw [World.perform_state, hstep.frame hnot (by rw [hstands]; simp), hstands]
  accounted := by
    intro n hn
    rw [World.perform_state] at hn
    by_cases hgiven : L.given ⟨o, (exec c o w.state).1⟩ = some n
    · by_cases hleaves : L.leaves c
      · exact .inr (.inr ⟨_, List.mem_cons_self, hgiven, hleaves⟩)
      · exact absurd ((hstep.gives n hgiven).2 hleaves) hn
    by_cases htaken : L.taken ⟨o, (exec c o w.state).1⟩ = some n
    · exact .inr (.inl ⟨i, holds_perform.mpr (.inl ⟨rfl, htaken⟩)⟩)
    by_cases hi : L.Holds i n w.history
    · exact .inr (.inl ⟨i, holds_perform.mpr (.inr ⟨hi, fun h => hgiven h.2⟩)⟩)
    rw [hstep.others n hi htaken] at hn
    rcases hw.accounted n hn with hbase | ⟨j, hj⟩ | ⟨e, he, hleft⟩
    · exact .inl hbase
    · exact .inr (.inl ⟨j, holds_perform.mpr (.inr ⟨hj, fun h => hgiven h.2⟩)⟩)
    · exact .inr (.inr ⟨e, List.mem_cons_of_mem _ he, hleft⟩)

variable [DecidableEq ι]

variable (L) in
/-- Nobody else touches what a program holds; it owes the others the same, and to keep what they all
rely on. -/
def contract (base : S) (J : World ι Ans C S → Prop) (i : ι) : Contract ι Ans C S where
  rely w w' := ownEvents i w'.history = ownEvents i w.history ∧
    ∀ n, L.Holds i n w.history → L.entry w'.state n = L.entry w.state n
  guarantee _ w w' := (∀ j ≠ i, ownEvents j w'.history = ownEvents j w.history) ∧
    (∀ n, ¬ L.Holds i n w.history → L.entry w.state n ≠ none →
      L.entry w'.state n = L.entry w.state n) ∧
    (L.Sound base w ∧ J w → L.Sound base w' ∧ J w')
  rely_refl _ := ⟨rfl, fun _ _ => rfl⟩
  rely_trans h₁ h₂ := ⟨h₂.1.trans h₁.1, fun n hn =>
    (h₂.2 n ((L.holds_congr h₁.1).mpr hn)).trans (h₁.2 n hn)⟩

variable {J : World ι Ans C S → Prop}

theorem Step.guarantee (hstep : L.Step exec i c o w)
    (hJ : L.Sound base w → J w → J (w.perform exec i c o).2) :
    (L.contract base J i).guarantee o w (w.perform exec i c o).2 :=
  ⟨fun _ hij => ownEvents_perform_other hij, fun _ hnot hstands => hstep.frame hnot hstands,
    fun h => ⟨h.1.step hstep, hJ h.1 h.2⟩⟩

theorem rely_of_guarantee {w w' : World ι Ans C S} (hij : i ≠ j) (hw : L.Sound base w)
    (hg : (L.contract base J i).guarantee o w w') : (L.contract base J j).rely w w' := by
  refine ⟨hg.1 j hij.symm, fun n hj => ?_⟩
  apply hg.2.1 n
  · intro hi
    exact hij (hw.apart i j n hi hj)
  · exact (hw.standing j n hj).1

theorem coexist {Q : ι → α → World ι Ans C S → Prop}
    (hQ : ∀ i a w w', (L.contract base J i).rely w w' → Q i a w → Q i a w') :
    Pool.Coexist (L.contract base J) Q fun w => L.Sound base w ∧ J w where
  invariant := fun _ _ _ _ hg hw => hg.2.2 hw
  rely := fun _ _ _ _ _ hij hg hw => rely_of_guarantee hij hw.1 hg
  returned := hQ

variable (L) in
/-- The program holds nothing. -/
def Free (i : ι) (w : World ι Ans C S) : Prop := ∀ n, ¬ L.Holds i n w.history

variable (L) in
/-- The program holds one name, under which `v` stands. -/
def Has (i : ι) (n : N) (v : V) (w : World ι Ans C S) : Prop :=
  (∀ n', L.Holds i n' w.history ↔ n' = n) ∧ L.entry w.state n = some v

variable {v : V} {w w' : World ι Ans C S}

theorem Free.rely (h : L.Free i w) (hw : (L.contract base J i).rely w w') : L.Free i w' :=
  fun n hn => h n ((L.holds_congr hw.1).mp hn)

theorem Has.rely (h : L.Has i n v w) (hw : (L.contract base J i).rely w w') : L.Has i n v w' :=
  ⟨fun n' => (L.holds_congr hw.1).trans (h.1 n'), (hw.2 n ((h.1 n).mpr rfl)).trans h.2⟩

omit [DecidableEq ι] in
theorem Has.holds (h : L.Has i n v w) : L.Holds i n w.history := (h.1 n).mpr rfl

end Leases

namespace Fallible

variable (exec : Handler Ans C S) (i : ι) (K : Contract ι Ans C S)

/-- The program keeps its guarantee and ends, with a value or an error, as `Q` says. -/
def Meets (Q : Except ε α → World ι Ans C S → Prop) (p : Fallible ε Ans α) (w : World ι Ans C S) :
    Prop :=
  Prog.Safe exec i K Q p.run w

variable {exec i K} {Q R : Except ε α → World ι Ans C S → Prop} {p : Fallible ε Ans α}
  {w : World ι Ans C S}

theorem meets_pure {a : α} (h : ∀ w', K.rely w w' → Q (.ok a) w') :
    (pure a : Fallible ε Ans α).Meets exec i K Q w := h

theorem meets_throw {e : ε} (h : ∀ w', K.rely w w' → Q (.error e) w') :
    (throw e : Fallible ε Ans α).Meets exec i K Q w := h

theorem meets_ofExcept {r : Except ε α} (h : ∀ w', K.rely w w' → Q r w') :
    (ofExcept r : Fallible ε Ans α).Meets exec i K Q w := h

theorem Meets.mono (h : p.Meets exec i K R w) (hR : ∀ r w, R r w → Q r w) :
    p.Meets exec i K Q w :=
  Prog.Safe.mono h hR

theorem meets_bind {f : α → Fallible ε Ans β} {Q : Except ε β → World ι Ans C S → Prop}
    (hp : p.Meets exec i K R w)
    (herror : ∀ e w w', R (.error e) w → K.rely w w' → Q (.error e) w')
    (hok : ∀ a w, R (.ok a) w → (f a).Meets exec i K Q w) : (p >>= f).Meets exec i K Q w := by
  apply Prog.safe_bind (f := ExceptT.bindCont f) hp
  intro r w hr
  cases r with
  | error e => exact fun w' hw => herror e w w' hr hw
  | ok a => exact hok a w hr

theorem meets_capture_bind {f : Except ε α → Fallible ε' Ans β}
    {Q : Except ε' β → World ι Ans C S → Prop} (hp : p.Meets exec i K R w)
    (hf : ∀ r w, R r w → (f r).Meets exec i K Q w) :
    ((capture p : Fallible ε' Ans (Except ε α)) >>= f).Meets exec i K Q w := by
  apply meets_bind (R := fun r w => ∃ r', r = .ok r' ∧ (f r').Meets exec i K Q w)
  · apply Prog.safe_bind hp
    intro r w hr w' hw
    exact ⟨r, rfl, Prog.Safe.rely (hf r w hr) hw⟩
  · rintro e w w' ⟨r', hr', -⟩ _
    cases hr'
  · rintro r w ⟨r', hr', hmeets⟩
    cases hr'
    exact hmeets

theorem meets_attempt {δ : Type} {o : Op} {wrap : δ → ε} {decode : Ans o → Except δ α}
    (h : ∀ w', K.rely w w' → ∀ c, K.guarantee o w' (w'.perform exec i c o).2 ∧
      ∀ w'', K.rely (w'.perform exec i c o).2 w'' →
        Q ((decode (w'.perform exec i c o).1).mapError wrap) w'') :
    (attempt o wrap decode).Meets exec i K Q w := by
  intro w' hw c
  obtain ⟨hg, hQ⟩ := h w' hw c
  refine ⟨hg, ?_⟩
  cases hx : decode (w'.perform exec i c o).1 with
  | error e =>
    rw [hx] at hQ
    simp only [hx]
    exact meets_throw (α := α) hQ
  | ok a =>
    rw [hx] at hQ
    simp only [hx]
    exact meets_pure hQ

theorem meets_ask {o : Op} {Q : Except ε (Ans o) → World ι Ans C S → Prop}
    (h : ∀ w', K.rely w w' → ∀ c, K.guarantee o w' (w'.perform exec i c o).2 ∧
      ∀ w'', K.rely (w'.perform exec i c o).2 w'' → Q (.ok (w'.perform exec i c o).1) w'') :
    (lift (Prog.ask o) : Fallible ε Ans (Ans o)).Meets exec i K Q w := h

end Fallible

theorem Prog.safe_serve {Op' : Type} {Ans' : Op' → Type} {exec : Handler Ans C S} {i : ι}
    {K : Contract ι Ans C S} {Q : World ι Ans C S → Prop} {f : (o : Op') → Prog Ans (Ans' o)}
    (hQ : ∀ w w', K.rely w w' → Q w → Q w')
    (hf : ∀ o w, Q w → (f o).Safe exec i K (fun _ => Q) w) (client : Prog Ans' α)
    {w : World ι Ans C S} (hw : Q w) : (client.serve f).Safe exec i K (fun _ => Q) w := by
  induction client generalizing w with
  | pure a => exact fun w' hw' => hQ w w' hw' hw
  | call o k ih =>
    apply Prog.safe_bind (hf o w hw)
    intro x w' hw'
    exact ih x hw'

end Jitgen
