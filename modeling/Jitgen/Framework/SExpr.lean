import Jitgen.Framework.Text

/-!
# Tokens of S-expressions

A scanner for parentheses, atoms, string literals and comments to the end of the line. A string
literal ends at the first quote that no backslash precedes, and a backslash stands for the character
after it.
-/

namespace Jitgen

namespace SExpr

inductive Token where
  | opening
  | closing
  | atom (name : Text)
  | str (value : Text)
  deriving DecidableEq

/-- What the scanner is inside of. -/
inductive Mode where
  | between
  | atom (name : Text)
  | str (value : Text)
  | escape (value : Text)
  | comment
  deriving DecidableEq

def isSpace (c : Char) : Bool := c == ' ' || c == '\t' || c == '\n' || c == '\r'

/-- A character that is in no atom and no string. -/
def start (c : Char) : Mode × List Token :=
  if c = '(' then (.between, [.opening])
  else if c = ')' then (.between, [.closing])
  else if c = '"' then (.str [], [])
  else if c = ';' then (.comment, [])
  else if isSpace c then (.between, [])
  else (.atom [c], [])

def ends (c : Char) : Bool := isSpace c || c == '(' || c == ')' || c == '"' || c == ';'

def step : Mode → Char → Mode × List Token
  | .between, c => start c
  | .atom name, c =>
    if ends c then ((start c).1, .atom name :: (start c).2) else (.atom (name ++ [c]), [])
  | .str value, c =>
    if c = '"' then (.between, [.str value])
    else if c = '\\' then (.escape value, [])
    else (.str (value ++ [c]), [])
  | .escape value, c => (.str (value ++ [c]), [])
  | .comment, c => if c = '\n' then (.between, []) else (.comment, [])

def run : Mode → Text → Mode × List Token
  | m, [] => (m, [])
  | m, c :: cs => ((run (step m c).1 cs).1, (step m c).2 ++ (run (step m c).1 cs).2)

/-- What the end of the input adds; a string that is not closed is no token. -/
def finish : Mode → Option (List Token)
  | .between => some []
  | .atom name => some [.atom name]
  | .str _ => none
  | .escape _ => none
  | .comment => some []

def tokens (s : Text) : Option (List Token) :=
  (finish (run .between s).1).map fun last => (run .between s).2 ++ last

/-- The token without what a string literal holds. -/
def Token.blank : Token → Token
  | .str _ => .str []
  | t => t

def literals (ts : List Token) : List Text :=
  ts.filterMap fun
    | .str value => some value
    | _ => none

theorem run_append (m : Mode) (x y : Text) :
    run m (x ++ y) = ((run (run m x).1 y).1, (run m x).2 ++ (run (run m x).1 y).2) := by
  induction x generalizing m with
  | nil => simp [run]
  | cons c x ih => simp [run, ih, List.append_assoc]

theorem run_then {m m' : Mode} {x : Text} {ts : List Token} (h : run m x = (m', ts)) (y : Text) :
    run m (x ++ y) = ((run m' y).1, ts ++ (run m' y).2) := by
  rw [run_append, h]

theorem tokens_of_run {s : Text} {ts : List Token} (h : run .between s = (.between, ts)) :
    tokens s = some ts := by
  simp [tokens, h, finish]

/-- A text between quotes, with a backslash before each backslash and quote of it. -/
def quote (s : Text) : Text :=
  ['"'] ++ s.flatMap (fun c => if c = '\\' ∨ c = '"' then ['\\', c] else [c]) ++ ['"']

theorem run_escaped (value s : Text) :
    run (.str value) (s.flatMap fun c => if c = '\\' ∨ c = '"' then ['\\', c] else [c]) =
      (.str (value ++ s), []) := by
  induction s generalizing value with
  | nil => simp [run]
  | cons c s ih =>
    have hc : run (.str value) (if c = '\\' ∨ c = '"' then ['\\', c] else [c]) =
        (.str (value ++ [c]), []) := by
      by_cases h : c = '\\' ∨ c = '"'
      · rw [if_pos h]
        simp [run, step]
      · rw [if_neg h]
        rw [not_or] at h
        simp [run, step, h.1, h.2]
    rw [List.flatMap_cons, run_then hc, ih]
    simp

theorem run_quote (s : Text) : run .between (quote s) = (.between, [.str s]) := by
  have hopen : run .between ['"'] = (.str [], []) := by decide
  unfold quote
  rw [List.append_assoc, run_then hopen, run_then (run_escaped [] s)]
  simp [run, step]

theorem tokens_quoted_pair {a b c : Text} {ts us vs : List Token}
    (ha : run .between a = (.between, ts)) (hb : run .between b = (.between, us))
    (hc : run .between c = (.between, vs)) (x y : Text) :
    tokens (a ++ quote x ++ b ++ quote y ++ c) = some (ts ++ [.str x] ++ us ++ [.str y] ++ vs) := by
  apply tokens_of_run
  simp only [List.append_assoc]
  rw [run_then ha, run_then (run_quote x), run_then hb, run_then (run_quote y), hc]

end SExpr

end Jitgen
