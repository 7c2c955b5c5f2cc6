import Jitgen.Framework.Text

/-!
# Regular expressions with leftmost-first matching

The matcher enumerates the ends of the matches from one position in order of preference, so the
first element is the match a leftmost-first engine reports. Word boundaries look at the whole
haystack, also at what precedes the position where a match starts.
-/

namespace Jitgen

/-- Word characters beyond ASCII, as the Unicode tables of an engine list them. -/
class WordChars where
  nonAscii : Char → Bool

inductive Regex where
  | empty
  | char (p : Char → Bool)
  | seq (a b : Regex)
  | alt (a b : Regex)
  | group (n : Nat) (r : Regex)
  | rep (greedy : Bool) (lo : Nat) (hi : Option Nat) (r : Regex)
  | wordBoundary
  | lineStart
  | lineEnd

namespace Regex

variable [WordChars]

def isWordChar (c : Char) : Bool :=
  if c.toNat < 128 then Text.isAsciiAlphanumeric c || c == '_' else WordChars.nonAscii c

/-- A position in a haystack: the character before it, what follows, and the groups captured. -/
structure Position where
  prev : Option Char
  rest : Text
  groups : List (Nat × Text)

/-- Text of the last capture of group `n`. -/
def Position.group (p : Position) (n : Nat) : Text := (p.groups.lookup n).getD []

def atWordBoundary (p : Position) : Bool :=
  p.prev.any isWordChar != p.rest.head?.any isWordChar

/-- Repetition of one step; `fuel` bounds the number of repetitions. -/
def repMatches (step : Position → List Position) (greedy : Bool) :
    Nat → Nat → Option Nat → Position → List Position
  | 0, lo, _, p => if lo = 0 then [p] else []
  | fuel + 1, lo, hi, p =>
    let more := if hi = some 0 then [] else
      ((step p).filter fun q => q.rest.length < p.rest.length).flatMap
        (repMatches step greedy fuel (lo - 1) (hi.map (· - 1)))
    if 0 < lo then more else if greedy then more ++ [p] else p :: more

/-- Ends of the matches that start at a position, in order of preference. -/
def ends : Regex → Position → List Position
  | empty, p => [p]
  | char f, p =>
    match p.rest with
    | [] => []
    | c :: cs => if f c then [⟨some c, cs, p.groups⟩] else []
  | seq a b, p => (a.ends p).flatMap b.ends
  | alt a b, p => a.ends p ++ b.ends p
  | group n r, p => (r.ends p).map fun q =>
      ⟨q.prev, q.rest, (n, p.rest.take (p.rest.length - q.rest.length)) :: q.groups⟩
  | rep greedy lo hi r, p => repMatches r.ends greedy p.rest.length lo hi p
  | wordBoundary, p => if atWordBoundary p then [p] else []
  | lineStart, p => if p.prev = none ∨ p.prev = some '\n' then [p] else []
  | lineEnd, p => if p.rest = [] ∨ p.rest.head? = some '\n' then [p] else []

/-- The preferred non-empty match at a position: its text and its end. -/
def matchAt (r : Regex) (prev : Option Char) (rest : Text) : Option (Text × Position) :=
  ((r.ends ⟨prev, rest, []⟩).head?.filter fun q => q.rest.length < rest.length).map fun q =>
    (rest.take (rest.length - q.rest.length), q)

/-- Replace the non-overlapping matches from the left; `skip` characters belong to the last one. -/
def replaceFrom (r : Regex) (by' : Text → Position → Text) :
    Option Char → Nat → Text → Text
  | _, _, [] => []
  | _, skip + 1, c :: cs => replaceFrom r by' (some c) skip cs
  | prev, 0, c :: cs =>
    match r.matchAt prev (c :: cs) with
    | some (m, q) => by' m q ++ replaceFrom r by' (some c) (m.length - 1) cs
    | none => c :: replaceFrom r by' (some c) 0 cs

/-- The matches that `replaceFrom` replaces, in order. -/
def matchesFrom (r : Regex) : Option Char → Nat → Text → List (Text × Position)
  | _, _, [] => []
  | _, skip + 1, c :: cs => matchesFrom r (some c) skip cs
  | prev, 0, c :: cs =>
    match r.matchAt prev (c :: cs) with
    | some (m, q) => (m, q) :: matchesFrom r (some c) (m.length - 1) cs
    | none => matchesFrom r (some c) 0 cs

def replaceAll (r : Regex) (by' : Text → Position → Text) (s : Text) : Text :=
  replaceFrom r by' none 0 s

def findAll (r : Regex) (s : Text) : List (Text × Position) := matchesFrom r none 0 s

end Regex

end Jitgen
