import Jitgen.Framework.Text

/-!
# Globs

`?` is one character and `*` any run within a segment; `**` is any run of whole segments.
-/

namespace Jitgen

open Text

def maxGlobLen : Nat := 512

def maxPathLen : Nat := 4096

/-- What a pattern element does at an element of the subject. -/
inductive GlobStep where
  | consume
  | star
  | mismatch
  deriving DecidableEq

/-- Matching with one backtrack point: the pattern after the last star, and the subject from where
that star ends for now. -/
def globLoop {α β : Type} (classify : α → β → GlobStep) (isStar : α → Bool) :
    (pat : List α) → (subject : List β) → (star : Option (List α × List β)) →
    (∀ x ∈ star, subject.length ≤ x.2.length) → Bool
  | pat, [], _, _ => pat.all isStar
  | pat, d :: rest, star, hstar =>
    let backtrack : Bool :=
      match hx : star with
      | none => false
      | some (after, mark) =>
        match hm : mark with
        | [] => false
        | _ :: mark' => globLoop classify isStar after mark' (some (after, mark')) (by simp)
    match hp : pat with
    | [] => backtrack
    | c :: pat' =>
      match classify c d with
      | .consume => globLoop classify isStar pat' rest star fun x hx => by
          have := hstar x hx
          simp only [List.length_cons] at this
          omega
      | .star => globLoop classify isStar pat' (d :: rest) (some (pat', d :: rest)) (by simp)
      | .mismatch => backtrack
termination_by pat subject star =>
  (star.elim (subject.length + 1) (·.2.length), subject.length, pat.length)
decreasing_by
  · subst hx hm
    apply Prod.Lex.left
    simp
  · cases star with
    | none =>
      apply Prod.Lex.left
      simp
    | some x =>
      apply Prod.Lex.right
      apply Prod.Lex.left
      simp
  · cases star with
    | none =>
      apply Prod.Lex.left
      simp
    | some x =>
      have hle := hstar x rfl
      rcases Nat.lt_or_eq_of_le hle with hlt | heq
      · apply Prod.Lex.left
        exact hlt
      · simp only [Option.elim, ← heq]
        apply Prod.Lex.right
        apply Prod.Lex.right
        subst hp
        simp

section

variable {α β : Type} (classify : α → β → GlobStep) (isStar : α → Bool)

/-- A state of the loop. -/
structure GlobState (α β : Type) where
  pat : List α
  subject : List β
  star : Option (List α × List β)
  bound : ∀ x ∈ star, subject.length ≤ x.2.length

namespace GlobState

/-- The start: there is no star to go back to. -/
def init (pat : List α) (subject : List β) : GlobState α β := ⟨pat, subject, none, by simp⟩

def run (s : GlobState α β) : Bool := globLoop classify isStar s.pat s.subject s.star s.bound

/-- Let the last star take one more element. -/
def back (s : GlobState α β) : Option (GlobState α β) :=
  match s.star with
  | some (after, _ :: mark) => some ⟨after, mark, some (after, mark), by simp⟩
  | _ => none

/-- The matching stops at the end of the subject, or without a star to go back to. -/
def next (s : GlobState α β) : Option (GlobState α β) :=
  match s with
  | ⟨_, [], _, _⟩ => none
  | ⟨[], d :: rest, star, bound⟩ => back ⟨[], d :: rest, star, bound⟩
  | ⟨c :: pat, d :: rest, star, bound⟩ =>
    match classify c d with
    | .consume => some ⟨pat, rest, star, fun x hx => by
        have := bound x hx
        simp only [List.length_cons] at this
        omega⟩
    | .star => some ⟨pat, d :: rest, some (pat, d :: rest), by simp⟩
    | .mismatch => back ⟨c :: pat, d :: rest, star, bound⟩

end GlobState

end

/-- One segment; a `*` of the subject is matched as itself first. -/
def segmentMatch (pat seg : Text) : Bool :=
  globLoop (fun p s => if p = '?' ∨ p = s then .consume else if p = '*' then .star else .mismatch)
    (· == '*') pat seg none (by simp)

def matchSegments (pat path : List Text) : Bool :=
  globLoop
    (fun (p s : Text) =>
      if p = "**" then .star else if segmentMatch p s then .consume else .mismatch)
    (fun p => p == "**") pat path none (by simp)

def globMatch (pattern path : Text) : Bool :=
  if maxGlobLen < utf8Len pattern ∨ maxPathLen < utf8Len path then false
  else matchSegments (pattern.splitOn '/') (path.splitOn '/')

end Jitgen
