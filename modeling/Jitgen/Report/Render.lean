import Jitgen.Report.Human
import Jitgen.Report.Junit
import Jitgen.Report.Markdown
import Jitgen.Report.Patch
import Jitgen.Report.Sarif

/-!
# Rendering a report
-/

namespace Jitgen

open Text

inductive ReportFormat where
  | human
  | json
  | markdown
  | patch
  | junit
  | sarif
  deriving DecidableEq

/-- Indented JSON of a report and of a document. -/
class ReportJson where
  report : RunReport → Except Text Text
  document : Json → Except Text Text

section

variable [ReportJson]

def JsonExport.render (report : RunReport) : Text :=
  match ReportJson.report report with
  | .ok s => s
  | .error e => ("\x7b\"error\":\"failed to serialize report: " : Text) ++ e ++ "\"\x7d"

def Sarif.render (report : RunReport) : Text :=
  match ReportJson.document (Sarif.document report) with
  | .ok s => s
  | .error e => ("\x7b\"error\":\"failed to serialize SARIF: " : Text) ++ e ++ "\"\x7d"

/-- Render a report in a format. -/
def render (report : RunReport) : ReportFormat → Text
  | .human => Human.render report
  | .json => JsonExport.render report
  | .markdown => Markdown.render report
  | .patch => renderPatch report
  | .junit => Junit.render report
  | .sarif => Sarif.render report

end

end Jitgen
