import Jitgen.Report.Escape
import Jitgen.Report.Model

/-!
# The terminal report

Plain text, with every untrusted value flattened to one line.
-/

namespace Jitgen

open Text

namespace Human

def header (report : RunReport) : Text :=
  ("jitgen " ++ sanitizeLine report.jitgenVersion capName ++ " — run " ++
      sanitizeLine report.runId capName ++ "\n") ++
    ("repo: " ++ sanitizeLine report.repo capName ++ "\nbase: " ++
      sanitizeLine report.base capName ++ "  head: " ++ sanitizeLine report.head capName ++
      "\nmode: " ++ report.mode.asStr ++ "\n")

def summary (sum : RunSummary) : Text :=
  "\nsummary: " ++ ofNat sum.targetsSelected ++ " targets, " ++ ofNat sum.candidatesGenerated ++
    " candidates, " ++ ofNat sum.accepted ++ " accepted, " ++ ofNat sum.catches ++ " catches, " ++
    ofNat sum.rejected ++ " rejected\n"

def acceptedRow (t : AcceptedTest) : Text :=
  "  + " ++ sanitizeLine t.path capName ++ " [" ++ sanitizeLine t.language capName ++ "]  → " ++
    sanitizeLine t.reproduction capText ++ "\n"

def catchRow (c : CatchReport) : Text :=
  "  ! [" ++ (severityOf c.decision c.tpProbability).asStr ++ "] " ++ c.decision.debug ++ " tp=" ++
    c.tpProbability.toFixed2 ++ " " ++ sanitizeLine c.path capName ++ " → " ++
    sanitizeLine c.rationale capText ++ "\n"

def rejectedRow (r : RejectedCandidate) : Text :=
  "  - " ++ sanitizeLine r.path capName ++ " (" ++ sanitizeLine r.reason capText ++ ")\n"

def warningRow (w : Text) : Text := "  ! " ++ sanitizeLine w capText ++ "\n"

/-- What stands in place of an empty list. -/
def noneRow {α : Type} (l : List α) : Text := if l.isEmpty then "  (none)\n" else []

/-- The accepted tests or the catches, by mode. -/
def results (report : RunReport) : Text :=
  match report.mode with
  | .harden =>
    "\nAccepted tests:\n" ++ noneRow report.accepted ++ report.accepted.flatMap acceptedRow
  | .catch =>
    "\nCatches (report-only):\n" ++ noneRow report.catches ++ report.catches.flatMap catchRow

def rejections (report : RunReport) : Text :=
  if report.rejected.isEmpty then [] else "\nRejected:\n" ++ report.rejected.flatMap rejectedRow

def warnings (report : RunReport) : Text :=
  if report.warnings.isEmpty then [] else "\nWarnings:\n" ++ report.warnings.flatMap warningRow

def render (report : RunReport) : Text :=
  header report ++ summary report.summary ++ results report ++ rejections report ++ warnings report

end Human

end Jitgen
