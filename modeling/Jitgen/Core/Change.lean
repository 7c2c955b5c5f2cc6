import Jitgen.Core.Model

/-!
# Change sets
-/

namespace Jitgen

inductive ChangeKind where
  | added
  | modified
  | deleted
  | renamed
  deriving DecidableEq

/-- Whether a line falls within the range. -/
def LineRange.contains (r : LineRange) (line : Nat) : Bool := r.start ≤ line && line ≤ r.end

/-- A changed file, with its changed ranges in the head revision. -/
structure FileChange where
  path : Text
  oldPath : Option Text
  kind : ChangeKind
  hunks : List LineRange
  deriving DecidableEq

structure ChangeSet where
  base : RevisionId
  head : RevisionId
  files : List FileChange
  deriving DecidableEq

theorem LineRange.contains_iff {r : LineRange} {line : Nat} :
    r.contains line = true ↔ r.start ≤ line ∧ line ≤ r.end := by
  simp [LineRange.contains]

end Jitgen
