import Jitgen.Llm.Json
import Jitgen.Report.Escape
import Jitgen.Report.Model

/-!
# The SARIF export

The document as a JSON value; the JSON library writes it.
-/

namespace Jitgen

open Text

def Severity.sarifLevel : Severity → Text
  | .high => "error"
  | .medium => "warning"
  | .low => "note"

namespace Sarif

def sarifVersion : Text := "2.1.0"

def sarifSchema : Text :=
  "https://raw.githubusercontent.com/oasis-tcs/sarif-spec/master/Schemata/sarif-schema-2.1.0.json"

def toolInformationUri : Text := "https://github.com/sondrateconsulting/jitgen"

def rules (report : RunReport) : List Json :=
  match report.mode with
  | .catch => [.object [("id", .string "jitgen/weak-catch"), ("name", .string "WeakCatch"),
      ("shortDescription", .object
        [("text", .string "A generated test fails on head while passing on base.")])]]
  | .harden => [.object [("id", .string "jitgen/hardening-test"), ("name", .string "HardeningTest"),
      ("shortDescription", .object
        [("text", .string "A generated test that passes on head (landable).")])]]

def artifactLocation (path : Text) : Json := .object [("uri", .string (sanitize path capName))]

def location (path : Text) : Json :=
  .object [("physicalLocation", .object [("artifactLocation", artifactLocation path)])]

/-- The changed line of a catch, or its file when the line is not known; without either the test. -/
def catchLocation (c : CatchReport) : Json :=
  match c.changedPath with
  | some path =>
    let region := match c.changedLine with
      | some line => [("region", Json.object [("startLine", .number (Binary64.ratio line 1))])]
      | none => []
    .object [("physicalLocation", .object (("artifactLocation", artifactLocation path) :: region))]
  | none => location c.path

def catchText (c : CatchReport) : Text :=
  let text := c.decision.debug ++ " (tp_probability=" ++ c.tpProbability.toFixed2 ++ "): " ++
    c.rationale
  match c.mutant with
  | some m => text ++ "\nmutant " ++ m.id ++ ": " ++ m.riskDescription ++ " [" ++ m.path ++ "]"
  | none => text

def catchResult (c : CatchReport) : Json :=
  .object [("ruleId", .string "jitgen/weak-catch"),
    ("level", .string (severityOf c.decision c.tpProbability).sarifLevel),
    ("message", .object [("text", .string (sanitize (catchText c) capText))]),
    ("locations", .array [catchLocation c])]

def acceptedText (t : AcceptedTest) : Text :=
  "Accepted hardening test for " ++ t.symbol.getD "(hunk)" ++ " (" ++ t.language ++
    "). Reproduction: " ++ t.reproduction

def acceptedResult (t : AcceptedTest) : Json :=
  .object [("ruleId", .string "jitgen/hardening-test"), ("level", .string "note"),
    ("message", .object [("text", .string (sanitize (acceptedText t) (max capSource capText)))]),
    ("locations", .array [location t.path])]

def results (report : RunReport) : List Json :=
  match report.mode with
  | .catch => report.catches.map catchResult
  | .harden => report.accepted.map acceptedResult

def document (report : RunReport) : Json :=
  .object [("$schema", .string sarifSchema), ("version", .string sarifVersion),
    ("runs", .array [.object
      [("tool", .object [("driver", .object [("name", .string "jitgen"),
        ("informationUri", .string toolInformationUri),
        ("version", .string (sanitize report.jitgenVersion capName)),
        ("rules", .array (rules report))])]),
      ("results", .array (results report))]])]

end Sarif

end Jitgen
