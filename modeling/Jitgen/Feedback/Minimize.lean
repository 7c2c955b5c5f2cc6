import Jitgen.Feedback.Seam

/-!
# Test minimization

Lines are dropped greedily while a predicate holds, until nothing can be dropped or the probe budget
is spent. The predicate is the one operation, and may fail.
-/

namespace Jitgen

open Text

def defaultMaxProbes : Nat := 200

/-- Computations that probe candidates with a predicate. -/
abbrev Probing (α : Type) :=
  Fallible FeedbackError (fun _ : TestCandidate => Except FeedbackError Bool) α

def stillInteresting (candidate : TestCandidate) : Probing Bool :=
  Fallible.attempt candidate id id

def withSource (candidate : TestCandidate) (source : Text) : TestCandidate :=
  { candidate with source := source }

/-- A state of the two loops. -/
structure MinimizeState where
  lines : List Text
  probes : Nat
  changed : Bool
  deriving DecidableEq

/-- One pass over the lines. The lines before the index are in `before`, so that its length is the
index; after a removal the same index holds the next line. -/
def minimizePass (candidate : TestCandidate) (maxProbes : Nat) (before : List Text) :
    List Text → Nat → Bool → Probing MinimizeState
  | [], probes, changed => pure ⟨before, probes, changed⟩
  | l :: rest, probes, changed =>
    if maxProbes ≤ probes then pure ⟨before ++ l :: rest, probes, changed⟩
    else do
      let interesting ← stillInteresting (withSource candidate (join "\n" (before ++ rest)))
      if interesting then minimizePass candidate maxProbes before rest (probes + 1) true
      else minimizePass candidate maxProbes (before ++ [l]) rest (probes + 1) changed

/-- Passes until one changes nothing; a pass that is followed by another removes a line. -/
def minimizeRounds (candidate : TestCandidate) (maxProbes : Nat) :
    Nat → List Text → Nat → Bool → Probing (List Text × Bool)
  | 0, lines, _, removed => pure (lines, removed)
  | fuel + 1, lines, probes, removed =>
    if maxProbes ≤ probes then pure (lines, removed)
    else do
      let s ← minimizePass candidate maxProbes [] lines probes false
      if s.changed then minimizeRounds candidate maxProbes fuel s.lines s.probes true
      else pure (s.lines, removed)

/-- Drop lines from a candidate while the predicate holds. The original is returned as it is when
nothing was dropped. -/
def minimize (candidate : TestCandidate) (maxProbes : Nat) : Probing TestCandidate := do
  let start := lines candidate.source
  let out ← minimizeRounds candidate maxProbes (start.length + 1) start 0 false
  return if out.2 then withSource candidate (join "\n" out.1) else candidate

end Jitgen
