import Jitgen.Feedback.Seam

/-!
# Flake filter

A candidate is run again to drop nondeterministic results.
-/

namespace Jitgen

structure FlakeReport where
  stable : Bool
  observed : List CatchClass
  deriving DecidableEq

/-- The single stable class if there is one. -/
def FlakeReport.class (r : FlakeReport) : CatchClass :=
  match r.stable, r.observed with
  | true, c :: _ => c
  | _, _ => .flaky

/-- Stable when every trial observed the class of the first one. -/
def flakeReport (observed : List CatchClass) : FlakeReport where
  stable := match observed with
    | [] => true
    | first :: _ => observed.all (· == first)
  observed := observed

/-- The observed classes of `n` trials, in order. -/
def observe (trial : Feedback CatchClass) : Nat → Feedback (List CatchClass)
  | 0 => pure []
  | n + 1 => do
    let c ← trial
    let cs ← observe trial n
    return c :: cs

def singleTrial (candidate : TestCandidate) (variant : Variant) : Feedback CatchClass := do
  let r ← runCandidate candidate variant
  return CatchClass.fromSingle r

def catchTrial (candidate : TestCandidate) : Feedback CatchClass := do
  let base ← runCandidate candidate .base
  let head ← runCandidate candidate .head
  return CatchClass.fromCatch ⟨base, head⟩

/-- Re-run a single-execution candidate `reruns + 1` times. -/
def flakeFilterSingle (candidate : TestCandidate) (variant : Variant) (reruns : Nat) :
    Feedback FlakeReport := do
  let observed ← observe (singleTrial candidate variant) (reruns + 1)
  return flakeReport observed

/-- Re-run a base and head pair `reruns + 1` times. -/
def flakeFilterCatch (candidate : TestCandidate) (reruns : Nat) : Feedback FlakeReport := do
  let observed ← observe (catchTrial candidate) (reruns + 1)
  return flakeReport observed

private theorem flakeReport_class_eq {observed : List CatchClass} {c : CatchClass}
    (hne : c ≠ .flaky) (h : (flakeReport observed).class = c) :
    observed ≠ [] ∧ ∀ x ∈ observed, x = c := by
  cases observed with
  | nil => exact absurd h.symm hne
  | cons first rest =>
    cases hs : (flakeReport (first :: rest)).stable with
    | false =>
      simp only [FlakeReport.class, hs] at h
      exact absurd h.symm hne
    | true =>
      have hclass : (flakeReport (first :: rest)).class = first := by
        unfold FlakeReport.class
        rw [hs]
        rfl
      simp only [flakeReport, List.all_eq_true, beq_iff_eq] at hs
      exact ⟨by simp, fun x hx => (hs x hx).trans (hclass.symm.trans h)⟩

private theorem returns_observe {β : Type} {trial : Feedback CatchClass} (events : β → Trace Ans)
    (classOf : β → CatchClass)
    (htrial : ∀ t k, trial.Returns t k → ∃ x, t = events x ∧ k = classOf x) {n : Nat}
    {t : Trace Ans} {cs : List CatchClass} (h : (observe trial n).Returns t cs) :
    ∃ xs : List β, xs.length = n ∧ t = xs.flatMap events ∧ cs = xs.map classOf := by
  induction n generalizing t cs with
  | zero =>
    obtain ⟨rfl, rfl⟩ := Fallible.returns_pure.mp h
    exact ⟨[], rfl, rfl, rfl⟩
  | succ n ih =>
    obtain ⟨t₁, t₂, c, rfl, h₁, h₂⟩ := Fallible.returns_bind.mp h
    obtain ⟨t₃, t₄, cs', rfl, h₃, h₄⟩ := Fallible.returns_bind.mp h₂
    obtain ⟨rfl, rfl⟩ := Fallible.returns_pure.mp h₄
    obtain ⟨x, rfl, rfl⟩ := htrial _ _ h₁
    obtain ⟨xs, hlen, rfl, rfl⟩ := ih h₃
    exact ⟨x :: xs, by simp [hlen], by simp, by simp⟩

private theorem returns_singleTrial {c : TestCandidate} {v : Variant} {t : Trace Ans}
    {k : CatchClass} :
    (singleTrial c v).Returns t k ↔
      ∃ r, t = [ranCandidate c v r] ∧ k = CatchClass.fromSingle r := by
  unfold singleTrial
  simp only [Fallible.returns_bind, returns_runCandidate, Fallible.returns_pure]
  constructor
  · rintro ⟨_, _, r, rfl, rfl, rfl, rfl⟩
    exact ⟨r, rfl, rfl⟩
  · rintro ⟨r, rfl, rfl⟩
    exact ⟨_, [], r, rfl, rfl, rfl, rfl⟩

private theorem returns_catchTrial {c : TestCandidate} {t : Trace Ans} {k : CatchClass} :
    (catchTrial c).Returns t k ↔
      ∃ b h, t = [ranCandidate c .base b, ranCandidate c .head h] ∧
        k = CatchClass.fromCatch ⟨b, h⟩ := by
  unfold catchTrial
  simp only [Fallible.returns_bind, returns_runCandidate, Fallible.returns_pure]
  constructor
  · rintro ⟨_, _, b, rfl, rfl, _, _, h, rfl, rfl, rfl, rfl⟩
    exact ⟨b, h, rfl, rfl⟩
  · rintro ⟨b, h, rfl, rfl⟩
    exact ⟨_, _, b, rfl, rfl, _, [], h, rfl, rfl, rfl, rfl⟩

theorem flakeFilterSingle_hardenPass {c : TestCandidate} {v : Variant} {reruns : Nat}
    {t : Trace Ans} {rep : FlakeReport} (h : (flakeFilterSingle c v reruns).Returns t rep)
    (hc : rep.class = .hardenPass) :
    ∃ rs : List ExecutionResult, rs.length = reruns + 1 ∧ t = rs.map (ranCandidate c v) ∧
      ∀ r ∈ rs, r.outcome = .passed := by
  obtain ⟨t₁, t₂, cs, rfl, hobs, hr⟩ := Fallible.returns_bind.mp h
  obtain ⟨rfl, rfl⟩ := Fallible.returns_pure.mp hr
  obtain ⟨rs, hlen, rfl, rfl⟩ := returns_observe (fun r => [ranCandidate c v r])
    CatchClass.fromSingle (fun _ _ => returns_singleTrial.mp) hobs
  obtain ⟨-, hall⟩ := flakeReport_class_eq (by decide) hc
  refine ⟨rs, hlen, ?_, fun r hr => ?_⟩
  · rw [List.append_nil, List.map_eq_flatMap]
  · exact CatchClass.fromSingle_eq_hardenPass.mp (hall _ (List.mem_map_of_mem hr))

/-- The events of a list of base and head pairs. -/
def pairedRuns (c : TestCandidate) (ps : List (ExecutionResult × ExecutionResult)) : Trace Ans :=
  ps.flatMap fun p => [ranCandidate c .base p.1, ranCandidate c .head p.2]

theorem flakeFilterCatch_weakCatch {c : TestCandidate} {reruns : Nat} {t : Trace Ans}
    {rep : FlakeReport} (h : (flakeFilterCatch c reruns).Returns t rep)
    (hc : rep.class = .weakCatch) :
    ∃ ps, ps.length = reruns + 1 ∧ t = pairedRuns c ps ∧
      ∀ p ∈ ps, p.1.outcome = .passed ∧ p.2.outcome = .failed := by
  obtain ⟨t₁, t₂, cs, rfl, hobs, hr⟩ := Fallible.returns_bind.mp h
  obtain ⟨rfl, rfl⟩ := Fallible.returns_pure.mp hr
  obtain ⟨ps, hlen, rfl, rfl⟩ := returns_observe
    (fun p : ExecutionResult × ExecutionResult =>
      [ranCandidate c .base p.1, ranCandidate c .head p.2])
    (fun p => CatchClass.fromCatch ⟨p.1, p.2⟩)
    (fun _ _ hk => by
      obtain ⟨b, h, rfl, rfl⟩ := returns_catchTrial.mp hk
      exact ⟨(b, h), rfl, rfl⟩) hobs
  obtain ⟨-, hall⟩ := flakeReport_class_eq (by decide) hc
  refine ⟨ps, hlen, by simp [pairedRuns], fun p hp => ?_⟩
  exact CatchClass.fromCatch_eq_weakCatch.mp (hall _ (List.mem_map_of_mem hp))

end Jitgen
