import Jitgen.Feedback.Minimize
import Jitgen.Framework.Cut
import Mathlib.Data.List.DropRight

/-!
# Minimized candidates

The last pass of a run that keeps within its budget drops nothing, so that every single line was
tried and is needed.
-/

namespace Jitgen

open Text

/-- The candidate with the given lines. -/
def reduced (candidate : TestCandidate) (ls : List Text) : TestCandidate :=
  withSource candidate (join "\n" ls)

/-- The event of a probe that gave an answer. -/
def probed (c : TestCandidate) (answer : Bool) :
    Event fun _ : TestCandidate => Except FeedbackError Bool := ⟨c, .ok answer⟩

abbrev ProbeTrace := Trace fun _ : TestCandidate => Except FeedbackError Bool

private theorem returns_stillInteresting {c : TestCandidate} {t : ProbeTrace} {answer : Bool} :
    (stillInteresting c).Returns t answer ↔ t = [probed c answer] := by
  simp [stillInteresting, Fallible.returns_attempt, probed]

variable {candidate : TestCandidate} {maxProbes : Nat}

/-- What a pass that returns has done. Either it dropped nothing and tried every line it reached, or
the lines it leaves were probed with success. -/
inductive Passed (candidate : TestCandidate) (maxProbes : Nat) (before rest : List Text)
    (changed : Bool) (t : ProbeTrace) (s : MinimizeState) : Prop
  | same : s.changed = changed → s.lines = before ++ rest →
      (s.probes < maxProbes → ∀ i < rest.length,
        probed (reduced candidate (before ++ rest.eraseIdx i)) false ∈ t) →
      Passed candidate maxProbes before rest changed t s
  | dropped : s.changed = true → s.lines.length < (before ++ rest).length →
      s.lines.Sublist (before ++ rest) → probed (reduced candidate s.lines) true ∈ t →
      Passed candidate maxProbes before rest changed t s

section

variable {before rest : List Text} {l : Text} {changed : Bool} {t : ProbeTrace} {s : MinimizeState}

theorem Passed.drop (h : Passed candidate maxProbes before rest true t s) :
    Passed candidate maxProbes before (l :: rest) changed
      ([probed (reduced candidate (before ++ rest)) true] ++ t) s := by
  have hsub : (before ++ rest).Sublist (before ++ l :: rest) :=
    (List.sublist_cons_self l rest).append_left before
  have hlen : (before ++ rest).length < (before ++ l :: rest).length := by simp
  cases h with
  | same hchanged hlines _ =>
    apply Passed.dropped hchanged
    · rw [hlines]
      exact hlen
    · rw [hlines]
      exact hsub
    · rw [hlines]
      exact List.mem_append_left _ (List.mem_singleton_self _)
  | dropped hchanged hshort hkept htrue =>
    exact .dropped hchanged (hshort.trans hlen) (hkept.trans hsub) (List.mem_append_right _ htrue)

theorem Passed.keep (h : Passed candidate maxProbes (before ++ [l]) rest changed t s) :
    Passed candidate maxProbes before (l :: rest) changed
      ([probed (reduced candidate (before ++ rest)) false] ++ t) s := by
  have hshift : ∀ ls : List Text, before ++ [l] ++ ls = before ++ l :: ls := by simp
  cases h with
  | same hchanged hlines htried =>
    rw [hshift] at hlines
    refine .same hchanged hlines fun hleft i hi => ?_
    cases i with
    | zero => exact List.mem_append_left _ (List.mem_singleton_self _)
    | succ i =>
      have hevent := htried hleft i (Nat.lt_of_succ_lt_succ hi)
      rw [hshift] at hevent
      exact List.mem_append_right _ hevent
  | dropped hchanged hshort hkept htrue =>
    rw [hshift] at hshort hkept
    exact .dropped hchanged hshort hkept (List.mem_append_right _ htrue)

end

private theorem passed_of_returns {before rest : List Text} {probes : Nat} {changed : Bool}
    {t : ProbeTrace} {s : MinimizeState}
    (h : (minimizePass candidate maxProbes before rest probes changed).Returns t s) :
    s.probes = probes + t.length ∧ Passed candidate maxProbes before rest changed t s := by
  induction rest generalizing before probes changed t with
  | nil =>
    have ⟨ht, hs⟩ := Fallible.returns_pure.mp h
    rw [ht, hs]
    exact ⟨rfl, .same rfl (List.append_nil _).symm fun _ i hi => absurd hi (Nat.not_lt_zero i)⟩
  | cons l rest ih =>
    rw [minimizePass] at h
    split_ifs at h with hspent
    · have ⟨ht, hs⟩ := Fallible.returns_pure.mp h
      rw [ht, hs]
      exact ⟨rfl, .same rfl rfl fun hleft => absurd hspent (Nat.not_le_of_lt hleft)⟩
    have ⟨t₁, t₂, answer, ht, hprobe, h⟩ := Fallible.returns_bind.mp h
    rw [returns_stillInteresting.mp hprobe] at ht
    rw [ht, List.length_append, List.length_singleton]
    cases answer with
    | true =>
      have ⟨hcount, hpassed⟩ := ih h
      exact ⟨by omega, hpassed.drop⟩
    | false =>
      have ⟨hcount, hpassed⟩ := ih h
      exact ⟨by omega, hpassed.keep⟩

/-- A pass keeps within the budget, also when the predicate fails. -/
private theorem length_pass {before rest : List Text} {probes : Nat} {changed : Bool}
    {t : ProbeTrace} {r : Except FeedbackError MinimizeState} (hle : probes ≤ maxProbes)
    (h : (minimizePass candidate maxProbes before rest probes changed).Runs t r) :
    probes + t.length ≤ maxProbes := by
  induction rest generalizing before probes changed t with
  | nil =>
    rw [(Fallible.runs_pure.mp h).1]
    exact hle
  | cons l rest ih =>
    rw [minimizePass] at h
    split_ifs at h with hspent
    · rw [(Fallible.runs_pure.mp h).1]
      exact hle
    rcases Fallible.runs_bind.mp h with ⟨e, _, h⟩ | ⟨t₁, t₂, answer, ht, hprobe, h⟩
    · have ⟨x, ht, _⟩ := Fallible.runs_attempt.mp h
      rw [ht, List.length_singleton]
      omega
    · rw [returns_stillInteresting.mp hprobe] at ht
      have hrest : probes + 1 + t₂.length ≤ maxProbes := by
        cases answer with
        | true => exact ih (by omega) h
        | false => exact ih (by omega) h
      rw [ht, List.length_append, List.length_singleton]
      omega

/-- What a run of the passes leaves of the lines. -/
structure Reduced (candidate : TestCandidate) (maxProbes : Nat) (ls : List Text) (probes : Nat)
    (removed : Bool) (t : ProbeTrace) (out : List Text × Bool) : Prop where
  kept : out.1.Sublist ls
  last : out.2 = removed ∧ out.1 = ls ∨
    out.2 = true ∧ probed (reduced candidate out.1) true ∈ t
  minimal : probes + t.length < maxProbes → ∀ i < out.1.length,
    probed (reduced candidate (out.1.eraseIdx i)) false ∈ t

private theorem reduced_of_returns {fuel : Nat} {ls : List Text} {probes : Nat} {removed : Bool}
    {t : ProbeTrace} {out : List Text × Bool} (hfuel : ls.length < fuel)
    (h : (minimizeRounds candidate maxProbes fuel ls probes removed).Returns t out) :
    Reduced candidate maxProbes ls probes removed t out := by
  induction fuel generalizing ls probes removed t with
  | zero => exact absurd hfuel (Nat.not_lt_zero _)
  | succ fuel ih =>
    rw [minimizeRounds] at h
    split_ifs at h with hspent
    · have ⟨ht, hout⟩ := Fallible.returns_pure.mp h
      rw [ht, hout]
      exact ⟨List.Sublist.refl _, .inl ⟨rfl, rfl⟩,
        fun hleft => absurd hspent (Nat.not_le_of_lt hleft)⟩
    have ⟨t₁, t₂, s, ht, hpass, h⟩ := Fallible.returns_bind.mp h
    have ⟨hcount, hpassed⟩ := passed_of_returns hpass
    have hcount' : probes + t.length = s.probes + t₂.length := by
      rw [ht, List.length_append, hcount, Nat.add_assoc]
    cases hpassed with
    | same hchanged hlines htried =>
      rw [hchanged] at h
      have ⟨ht₂, hout⟩ := Fallible.returns_pure.mp h
      rw [ht₂, List.length_nil] at hcount'
      rw [List.nil_append] at hlines
      rw [ht, ht₂, List.append_nil, hout]
      refine ⟨hlines ▸ List.Sublist.refl _, .inl ⟨rfl, hlines⟩, fun hleft i hi => ?_⟩
      rw [ht, ht₂, List.append_nil] at hcount'
      rw [hlines] at hi ⊢
      exact htried (by omega) i hi
    | dropped hchanged hshort hkept htrue =>
      rw [hchanged] at h
      have hrest := ih (hshort.trans_le (Nat.le_of_lt_succ hfuel)) h
      refine ⟨hrest.kept.trans hkept, .inr ?_, fun hleft i hi => ?_⟩
      · rw [ht]
        rcases hrest.last with ⟨hremoved, hsame⟩ | ⟨hremoved, hevent⟩
        · exact ⟨hremoved, hsame ▸ List.mem_append_left _ htrue⟩
        · exact ⟨hremoved, List.mem_append_right _ hevent⟩
      · rw [ht]
        exact List.mem_append_right _ (hrest.minimal (by omega) i hi)

private theorem length_rounds {fuel : Nat} {ls : List Text} {probes : Nat} {removed : Bool}
    {t : ProbeTrace} {r : Except FeedbackError (List Text × Bool)} (hle : probes ≤ maxProbes)
    (h : (minimizeRounds candidate maxProbes fuel ls probes removed).Runs t r) :
    probes + t.length ≤ maxProbes := by
  induction fuel generalizing ls probes removed t with
  | zero =>
    rw [(Fallible.runs_pure.mp h).1]
    exact hle
  | succ fuel ih =>
    rw [minimizeRounds] at h
    split_ifs at h with hspent
    · rw [(Fallible.runs_pure.mp h).1]
      exact hle
    rcases Fallible.runs_bind.mp h with ⟨e, _, h⟩ | ⟨t₁, t₂, s, ht, hpass, h⟩
    · exact length_pass hle h
    have hfirst := length_pass hle hpass
    have hcount := (passed_of_returns hpass).1
    have hrest : s.probes + t₂.length ≤ maxProbes := by
      cases hs : s.changed with
      | true =>
        rw [hs] at h
        exact ih (by omega) h
      | false =>
        rw [hs] at h
        rw [(Fallible.runs_pure.mp h).1, List.length_nil]
        omega
    rw [ht, List.length_append]
    omega

private theorem runs_rounds_fuel {fuel : Nat} {ls : List Text} {probes : Nat} {removed : Bool}
    {t : ProbeTrace} {r : Except FeedbackError (List Text × Bool)} (hfuel : ls.length < fuel) :
    (minimizeRounds candidate maxProbes (fuel + 1) ls probes removed).Runs t r ↔
      (minimizeRounds candidate maxProbes fuel ls probes removed).Runs t r := by
  induction fuel generalizing ls probes removed t with
  | zero => exact absurd hfuel (Nat.not_lt_zero _)
  | succ fuel ih =>
    rw [minimizeRounds, minimizeRounds]
    split_ifs with hspent
    · rfl
    rw [Fallible.runs_bind, Fallible.runs_bind]
    apply or_congr Iff.rfl
    apply exists_congr fun t₁ => exists_congr fun t₂ => exists_congr fun s => ?_
    apply and_congr_right fun _ => and_congr_right fun hpass => ?_
    cases (passed_of_returns hpass).2 with
    | same hchanged _ _ =>
      rw [hchanged]
      exact Iff.rfl
    | dropped hchanged hshort _ _ =>
      rw [hchanged]
      exact ih (hshort.trans_le (Nat.le_of_lt_succ hfuel))

/-- A line without the carriage returns at its end. -/
def dropCrs (l : Text) : Text := l.rdropWhile (· == '\r')

private theorem dropCrs_stripCr (l : Text) : dropCrs (stripCr l) = dropCrs l := by
  unfold stripCr
  split_ifs with h
  · have hl : l.dropLast ++ ['\r'] = l := List.dropLast_append_getLast? _ h
    calc dropCrs l.dropLast = dropCrs (l.dropLast ++ ['\r']) := by
          rw [dropCrs, dropCrs, List.rdropWhile_concat_pos _ _ _ (by decide)]
      _ = dropCrs l := by rw [hl]
  · rfl

private theorem lines_join_append {ls : List Text} {l : Text} (hls : ∀ k ∈ ls ++ [l], '\n' ∉ k) :
    lines (join "\n" (ls ++ [l])) = ls.map stripCr ++ if l = [] then [] else [l] := by
  rw [join_concat_unlines, lines_unlines_append fun k hk => hls k (List.mem_append_left _ hk)]
  split_ifs with hl
  · rw [hl]
    rfl
  · rw [lines_line (hls l (by simp)) hl]

private theorem map_dropCrs_sublist {ls : List Text} (hls : ∀ k ∈ ls, '\n' ∉ k) :
    ((lines (join "\n" ls)).map dropCrs).Sublist (ls.map dropCrs) := by
  induction ls using List.reverseRecOn with
  | nil => exact List.Sublist.refl _
  | append_singleton ls l _ =>
    have hinit : (ls.map stripCr).map dropCrs = ls.map dropCrs := by
      simp only [List.map_map, Function.comp_def, dropCrs_stripCr]
    rw [lines_join_append hls, List.map_append, List.map_append, hinit]
    apply List.Sublist.append_left
    split_ifs with hl
    · exact List.nil_sublist _
    · exact List.Sublist.refl _

private theorem lines_join_sublist {ls : List Text} (hls : ∀ k ∈ ls, '\n' ∉ k)
    (hcr : ∀ k ∈ ls, k.getLast? ≠ some '\r') : (lines (join "\n" ls)).Sublist ls := by
  induction ls using List.reverseRecOn with
  | nil => exact List.Sublist.refl _
  | append_singleton ls l _ =>
    have hinit : ls.map stripCr = ls := by
      rw [map_stripCr_eq_self_iff]
      intro k hk
      exact (stripCr_eq_self_iff k).mpr (hcr k (List.mem_append_left _ hk))
    rw [lines_join_append hls, hinit]
    apply List.Sublist.append_left
    split_ifs with hl
    · exact List.nil_sublist _
    · exact List.Sublist.refl _

/-- What minimizing returns: the candidate with the lines `kept`, each of which is needed unless the
budget is spent. -/
structure Minimized (candidate : TestCandidate) (maxProbes : Nat) (t : ProbeTrace)
    (kept : List Text) (c : TestCandidate) : Prop where
  kept_sublist : kept.Sublist (lines candidate.source)
  result : c = candidate ∧ kept = lines candidate.source ∨
    c = reduced candidate kept ∧ probed c true ∈ t
  minimal : t.length < maxProbes → ∀ i < kept.length,
    probed (reduced candidate (kept.eraseIdx i)) false ∈ t

private theorem minimized_of_returns {t : ProbeTrace} {c : TestCandidate}
    (h : (minimize candidate maxProbes).Returns t c) :
    ∃ kept, Minimized candidate maxProbes t kept c := by
  have ⟨t₁, t₂, out, ht, hrounds, h⟩ := Fallible.returns_bind.mp h
  have ⟨ht₂, hc⟩ := Fallible.returns_pure.mp h
  have hreduced := reduced_of_returns (Nat.lt_succ_self _) hrounds
  rw [ht₂, List.append_nil] at ht
  rw [ht]
  refine ⟨out.1, hreduced.kept, ?_, fun hleft => hreduced.minimal (by omega)⟩
  rcases hreduced.last with ⟨hremoved, hsame⟩ | ⟨hremoved, hevent⟩
  · rw [hremoved] at hc
    exact .inl ⟨hc, hsame⟩
  · rw [hremoved, if_pos rfl] at hc
    rw [hc]
    exact .inr ⟨rfl, hevent⟩

private theorem length_minimize {t : ProbeTrace} {r : Except FeedbackError TestCandidate}
    (h : (minimize candidate maxProbes).Runs t r) : t.length ≤ maxProbes := by
  rcases Fallible.runs_bind.mp h with ⟨e, _, h⟩ | ⟨t₁, t₂, out, ht, hrounds, h⟩
  · have := length_rounds (Nat.zero_le _) h
    omega
  · have := length_rounds (Nat.zero_le _) hrounds
    rw [ht, (Fallible.runs_pure.mp h).1, List.append_nil]
    omega

theorem Minimized.fields {t : ProbeTrace} {kept : List Text} {c : TestCandidate}
    (h : Minimized candidate maxProbes t kept c) : withSource c candidate.source = candidate := by
  rcases h.result with ⟨hc, _⟩ | ⟨hc, _⟩
  · rw [hc]
    rfl
  · rw [hc]
    rfl

private theorem Minimized.lines_source {t : ProbeTrace} {kept : List Text} {c : TestCandidate}
    (h : Minimized candidate maxProbes t kept c) :
    ((lines c.source).map dropCrs).Sublist ((lines candidate.source).map dropCrs) ∧
      ((∀ l ∈ lines candidate.source, l.getLast? ≠ some '\r') →
        (lines c.source).Sublist (lines candidate.source)) := by
  rcases h.result with ⟨hc, _⟩ | ⟨hc, _⟩
  · rw [hc]
    exact ⟨List.Sublist.refl _, fun _ => List.Sublist.refl _⟩
  · have hls : ∀ k ∈ kept, '\n' ∉ k := fun k hk =>
      newline_notMem_lines (h.kept_sublist.subset hk)
    rw [hc]
    constructor
    · exact (map_dropCrs_sublist hls).trans (h.kept_sublist.map dropCrs)
    · intro hcr
      exact (lines_join_sublist hls fun k hk => hcr k (h.kept_sublist.subset hk)).trans
        h.kept_sublist

private theorem runs_minimizeRounds {ls : List Text} {fuel : Nat} (hfuel : ls.length < fuel)
    {t : ProbeTrace} {r : Except FeedbackError (List Text × Bool)} :
    (minimizeRounds candidate maxProbes fuel ls 0 false).Runs t r ↔
      (minimizeRounds candidate maxProbes (ls.length + 1) ls 0 false).Runs t r := by
  induction fuel, hfuel using Nat.le_induction with
  | base => rfl
  | succ fuel hfuel ih => exact (runs_rounds_fuel hfuel).trans ih

/-- Minimizing with a deterministic predicate: the calls are within the budget, the passes end by
themselves, and every remaining line was found to be needed when the budget is not spent. -/
theorem minimize_reduces (candidate : TestCandidate) (maxProbes : Nat)
    (predicate : TestCandidate → Except FeedbackError Bool) :
    let run := (minimize candidate maxProbes).run.run (fun _ => predicate) []
    run.2.length ≤ maxProbes ∧
      (∀ fuel t r, (lines candidate.source).length < fuel →
        ((minimizeRounds candidate maxProbes fuel (lines candidate.source) 0 false).Runs t r ↔
          (minimizeRounds candidate maxProbes ((lines candidate.source).length + 1)
            (lines candidate.source) 0 false).Runs t r)) ∧
      ∀ c, run.1 = .ok c →
        (c = candidate ∨ probed c true ∈ run.2 ∧ predicate c = .ok true) ∧
          withSource c candidate.source = candidate ∧
          ((lines c.source).map dropCrs).Sublist ((lines candidate.source).map dropCrs) ∧
          ((∀ l ∈ lines candidate.source, l.getLast? ≠ some '\r') →
            (lines c.source).Sublist (lines candidate.source)) ∧
          ∃ kept, kept.Sublist (lines candidate.source) ∧
            (c = candidate ∧ kept = lines candidate.source ∨ c = reduced candidate kept) ∧
            (run.2.length < maxProbes → ∀ i < kept.length,
              predicate (reduced candidate (kept.eraseIdx i)) = .ok false) := by
  intro run
  have hrun : (minimize candidate maxProbes).Runs run.2 run.1 := Prog.runs_run _ _ _
  have hanswer : ∀ c answer, probed c answer ∈ run.2 → predicate c = .ok answer := by
    intro c answer he
    have ⟨_, h⟩ := Prog.answer_of_mem_run he
    exact h.symm
  refine ⟨length_minimize hrun, fun fuel t r hfuel => runs_minimizeRounds hfuel, fun c hc => ?_⟩
  rw [hc] at hrun
  have ⟨kept, hmin⟩ := minimized_of_returns hrun
  have hlines := hmin.lines_source
  refine ⟨?_, hmin.fields, hlines.1, hlines.2, kept, hmin.kept_sublist, ?_, ?_⟩
  · rcases hmin.result with ⟨hsame, _⟩ | ⟨_, hevent⟩
    · exact .inl hsame
    · exact .inr ⟨hevent, hanswer c true hevent⟩
  · rcases hmin.result with h | ⟨h, _⟩
    · exact .inl h
    · exact .inr h
  · intro hleft i hi
    exact hanswer _ _ (hmin.minimal hleft i hi)

def carriageReturns : TestCandidate := ⟨"t0", "tests/a.rs", "a\r\r\nb\nc", none, 0⟩

/-- The source with the last line dropped has a first line that the original does not have. -/
theorem minimize_reduces_carriage_return :
    ¬ ∀ (candidate : TestCandidate) (maxProbes : Nat)
      (predicate : TestCandidate → Except FeedbackError Bool) (c : TestCandidate),
      ((minimize candidate maxProbes).run.run (fun _ => predicate) []).1 = .ok c →
        (lines c.source).Sublist (lines candidate.source) := by
  intro h
  have hrun : ((minimize carriageReturns defaultMaxProbes).run.run
      (fun _ c => .ok (c.source == ("a\r\nb" : Text))) []).1 =
      .ok (withSource carriageReturns "a\r\nb") := by
    decide +kernel
  have hlines := h _ _ _ _ hrun
  exact absurd (hlines.subset (a := ("a" : Text)) (by decide)) (by decide)

end Jitgen
