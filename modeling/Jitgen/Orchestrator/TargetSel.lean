import Jitgen.Framework.Binary64Arith
import Jitgen.Framework.TopK
import Jitgen.Orchestrator.Context

/-!
# Target selection

Targets are ranked by a score of their risk, their kind and their size, each with a rationale, and
the first ones are taken up to a budget. Ties are broken by path, then by id.
-/

namespace Jitgen

open Text

namespace Binary64

/-- The order of two numbers, unless one is a NaN. -/
def partialCmp (a b : Binary64) : Option Ordering :=
  if a.isNaN || b.isNaN then none else some (compare a.key b.key)

/-- Nearest value to `9/10`. -/
def nineTenths : Binary64 := ofBits 0x3FECCCCCCCCCCCCD

/-- Nearest value to `7/10`. -/
def sevenTenths : Binary64 := ofBits 0x3FE6666666666666

/-- Nearest value to `7/20`. -/
def sevenTwentieths : Binary64 := ofBits 0x3FD6666666666666

/-- Nearest value to `3/20`. -/
def threeTwentieths : Binary64 := ofBits 0x3FC3333333333333

end Binary64

/-- The order of texts, which is that of their encodings. -/
def compareText (s t : Text) : Ordering := List.compareLex compare s t

namespace TargetSel

open Binary64

def kindWeight : SymbolKind → Binary64
  | .function | .method => one
  | .class => nineTenths
  | .module => sevenTenths
  | .hunk => threeFifths

def spanLines (t : Target) : Nat := t.span.end - t.span.start + 1

/-- The part of the size in the score; it grows up to 50 lines. -/
def sizeFactor (lines : Nat) : Binary64 := Binary64.min (ratio lines 50) one

def score (t : Target) : Binary64 :=
  clamp (add (add (mul half t.risk.value) (mul sevenTwentieths (kindWeight t.kind)))
    (mul threeTwentieths (sizeFactor (spanLines t)))) zero one

def rationale (t : Target) : Text :=
  "score=" ++ (score t).toFixed2 ++ " = 0.50*adapter_risk(" ++ t.risk.value.toFixed2 ++
    ") + 0.35*kind(" ++ t.kind.debug ++ "=" ++ (kindWeight t.kind).toFixed2 ++ ") + 0.15*size(" ++
    ofNat (spanLines t) ++ "ln=" ++ (sizeFactor (spanLines t)).toFixed2 ++ "); symbol=" ++
    t.symbol.getD "(hunk)" ++ "; path=" ++ t.path

def rankOne (t : Target) : RankedTarget := ⟨t, score t, rationale t⟩

/-- High scores come first. -/
def compareRanked (a b : RankedTarget) : Ordering :=
  ((partialCmp b.score a.score).getD .eq).then
    ((compareText a.target.path b.target.path).then (compareText a.target.id b.target.id))

def before (a b : RankedTarget) : Bool := (compareRanked a b).isLE

/-- Rank the targets and take the first ones. -/
def select (targets : List Target) (maxTests : Nat) : List RankedTarget :=
  topK before maxTests (targets.map rankOne)

end TargetSel

end Jitgen
