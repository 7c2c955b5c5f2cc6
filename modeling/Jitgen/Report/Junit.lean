import Jitgen.Report.Escape
import Jitgen.Report.Model

/-!
# The JUnit export

Accepted tests are passing test cases. A catch of high severity is a failing test case, and a lower
verdict a passing one that carries the verdict as output.
-/

namespace Jitgen

open Text

namespace Junit

/-- Whether a catch is a suspected bug. -/
def isFailure (c : CatchReport) : Bool := severityOf c.decision c.tpProbability == .high

def acceptedCase (t : AcceptedTest) : Text :=
  "    <testcase name=\"" ++ xmlAttr (t.symbol.getD t.path) capName ++ "\" classname=\"" ++
    xmlAttr t.language capName ++ "\"/>\n"

/-- The decision and its probability. -/
def verdict (c : CatchReport) : Text :=
  c.decision.debug ++ " (tp=" ++ c.tpProbability.toFixed2 ++ ")"

def detail (c : CatchReport) : Text :=
  verdict c ++ ": " ++ c.rationale ++ "\n\nreproduction:\n" ++ c.reproduction

def capDetail : Nat := max capText capSource

def catchBody (c : CatchReport) : Text :=
  if isFailure c then
    "      <failure message=\"" ++ xmlAttr (verdict c) capName ++ "\">" ++
      xmlText (detail c) capDetail ++ "</failure>\n"
  else "      <system-out>" ++ xmlText (detail c) capDetail ++ "</system-out>\n"

def catchCase (c : CatchReport) : Text :=
  "    <testcase name=\"" ++ xmlAttr c.path capName ++ "\" classname=\"" ++
    xmlAttr c.language capName ++ "\">\n" ++ catchBody c ++ "    </testcase>\n"

/-- The tests and the failures of a report. -/
def counts (report : RunReport) : Nat × Nat :=
  match report.mode with
  | .harden => (report.accepted.length, 0)
  | .catch => (report.catches.length, (report.catches.filter isFailure).length)

def cases (report : RunReport) : Text :=
  match report.mode with
  | .harden => report.accepted.flatMap acceptedCase
  | .catch => report.catches.flatMap catchCase

def render (report : RunReport) : Text :=
  let tests := ofNat (counts report).1
  let failures := ofNat (counts report).2
  "<?xml version=\"1.0\" encoding=\"UTF-8\"?>\n" ++
    ("<testsuites name=\"jitgen\" tests=\"" ++ tests ++ "\" failures=\"" ++ failures ++ "\">\n") ++
    ("  <testsuite name=\"jitgen-" ++ report.mode.asStr ++ "\" tests=\"" ++ tests ++
      "\" failures=\"" ++ failures ++ "\">\n") ++
    cases report ++ "  </testsuite>\n" ++ "</testsuites>\n"

end Junit

end Jitgen
