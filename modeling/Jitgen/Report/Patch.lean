import Jitgen.Report.Model
import Jitgen.Report.Escape

/-!
# Unified-diff patch of landable tests

Every accepted test is rendered as a new file; a catch report renders a comment only.
-/

namespace Jitgen

open Text

/-- Strip controls, newlines and leading slashes from a path used in a diff header. -/
def sanitizePath (p : Text) : Text :=
  ((stripControls p).filter (· != '\n')).dropWhile (· == '/')

/-- Render one new-file addition. -/
def fileAddition (t : AcceptedTest) : Text :=
  let path := sanitizePath t.path
  let body := stripControls t.source
  let header : Text := ("diff --git a/" : Text) ++ path ++ " b/" ++ path ++ "\n" ++
    "new file mode 100644\n"
  if body.isEmpty then
    header ++ "index 0000000000000000000000000000000000000000.." ++
      "e69de29bb2d1d6434b8b29ae775ad8c2e48c5391\n"
  else
    let lines := body.splitOn '\n'
    let trailingNewline := body.getLast? == some '\n'
    let contentLines := if trailingNewline then lines.dropLast else lines
    header ++ "--- /dev/null\n" ++ "+++ b/" ++ path ++ "\n" ++
      "@@ -0,0 +1," ++ ofNat contentLines.length ++ " @@\n" ++
      (contentLines.map fun line => '+' :: (line ++ ['\n'])).flatten ++
      (if !trailingNewline && 0 < contentLines.length then
        ("\\ No newline at end of file\n" : Text) else [])

def catchModeNotice : Text :=
  ("# jitgen: catch mode is report-only — catching tests fail by design and cannot " : Text) ++
    "land, so no patch is emitted. Use --format markdown|json|sarif|junit for the " ++
    "catch report.\n"

def nothingAcceptedNotice : Text := "# jitgen: no tests were accepted; nothing to patch.\n"

/-- Render the unified patch. -/
def renderPatch (report : RunReport) : Text :=
  if report.mode = .catch then catchModeNotice
  else if report.accepted.isEmpty then nothingAcceptedNotice
  else (report.accepted.map fileAddition).flatten

theorem sanitizePath_eq_self {p : Text} (hc : stripControls p = p) (hn : '\n' ∉ p)
    (hs : p.startsWith "/" = false) : sanitizePath p = p := by
  have hfilter : p.filter (· != '\n') = p := by
    rw [List.filter_eq_self]
    intro c hmem
    have hne : c ≠ '\n' := fun h => hn (h ▸ hmem)
    simpa using hne
  rw [sanitizePath, hc, hfilter]
  cases p with
  | nil => rfl
  | cons c cs =>
    have hne : c ≠ '/' := by
      rintro rfl
      simp [startsWith] at hs
    exact List.dropWhile_cons_of_neg (by simpa using hne)

end Jitgen
