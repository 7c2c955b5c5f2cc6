import Jitgen.Report.Escape
import Jitgen.Report.Model

/-!
# The Markdown export

In a code block, runs of three and more fence characters are broken up by zero-width spaces. Inline
values are escaped in one way, between backticks or not.
-/

namespace Jitgen

open Text

def backtick : Char := Char.ofNat 0x60

def zeroWidthSpace : Char := Char.ofNat 0x200B

/-- A run of `n` fence characters, broken where it could end a fence. -/
def flushRun (n : Nat) (ch : Char) : Text :=
  if 3 ≤ n then (List.replicate n [ch, zeroWidthSpace]).flatten else List.replicate n ch

/-- The loop of `mdCodeBlock`, with the lengths of the two runs it holds back. -/
def breakRuns (backticks tildes : Nat) : Text → Text
  | [] => flushRun backticks backtick ++ flushRun tildes '~'
  | c :: cs =>
    if c = backtick then flushRun tildes '~' ++ breakRuns (backticks + 1) 0 cs
    else if c = '~' then flushRun backticks backtick ++ breakRuns 0 (tildes + 1) cs
    else flushRun backticks backtick ++ flushRun tildes '~' ++ c :: breakRuns 0 0 cs

/-- Sanitize lines that go inside a fenced code block. -/
def mdCodeBlock (s : Text) (max : Nat) : Text := breakRuns 0 0 (sanitize s max)

/-- A short info string for a fence. -/
def langSlug (language : Text) : Text :=
  (language.filter fun c => isAsciiAlphanumeric c || c = '_' || c = '+' || c = '-').take 24

/-- Emit a fenced code block behind `s`. -/
def codeFence (s language source : Text) : Text :=
  let s := s ++ "~~~" ++ langSlug language ++ "\n" ++ mdCodeBlock source capSource
  (if endsWith s "\n" then s else s ++ "\n") ++ "~~~\n\n"

/-- Characters that get a backslash. -/
def escapedChars : Text :=
  ['\\', backtick, '*', '_', '\x7b', '\x7d', '[', ']', '(', ')', '#', '+', '-', '.', '!', '|', '~']

def mdInlineChar (c : Char) : Text :=
  if c = '\n' ∨ c = '\r' then " "
  else if c = '&' then "&amp;"
  else if c = '<' then "&lt;"
  else if c = '>' then "&gt;"
  else if c ∈ escapedChars then ['\\', c]
  else [c]

/-- A value on one line of Markdown. -/
def mdInline (s : Text) (max : Nat) : Text := (sanitize s max).flatMap mdInlineChar

namespace Markdown

def row (s k v : Text) : Text := s ++ "| " ++ k ++ " | " ++ v ++ " |\n"

def strategyStr : Strategy → Text
  | .auto => "auto"
  | .harden => "harden"
  | .dodgyDiff => "dodgy-diff"
  | .intentAware => "intent-aware"

def summarySection (s : Text) (r : RunReport) : Text :=
  let s := s ++ "## Summary\n\n"
  let s := s ++ "| Field | Value |\n|---|---|\n"
  let s := row s "run id" (mdInline r.runId capName)
  let s := row s "repo" (mdInline r.repo capName)
  let s := row s "base" (mdInline r.base capName)
  let s := row s "head" (mdInline r.head capName)
  let s := row s "mode" r.mode.asStr
  let s := row s "strategy" (strategyStr r.strategy)
  let s := row s "targets selected" (ofNat r.summary.targetsSelected)
  let s := row s "candidates generated" (ofNat r.summary.candidatesGenerated)
  let s := row s "accepted" (ofNat r.summary.accepted)
  let s := row s "catches" (ofNat r.summary.catches)
  let s := row s "rejected" (ofNat r.summary.rejected)
  s ++ "\n"

def acceptedEntry (s : Text) (t : AcceptedTest) : Text :=
  let s := s ++ ("### `" ++ mdInline t.path capName ++ "`\n\n")
  let s := s ++ ("- target: `" ++ mdInline t.target capName ++ "`\n- language: `" ++
    mdInline t.language capName ++ "`\n")
  let s := match t.symbol with
    | some sym => s ++ ("- symbol: `" ++ mdInline sym capName ++ "`\n")
    | none => s
  let s := s ++ ("- reproduction: " ++ mdInline t.reproduction capText ++ "\n\n")
  codeFence s t.language t.source

def acceptedSection (s : Text) (r : RunReport) : Text :=
  let s := s ++ "## Accepted tests (landable)\n\n"
  if r.accepted.isEmpty then s ++ "_No tests were accepted._\n\n"
  else r.accepted.foldl acceptedEntry s

/-- The icon of a severity. -/
def severityMarker : Severity → Text
  | .high => "🔴"
  | .medium => "🟡"
  | .low => "⚪"

def decisionName : CatchDecision → Text
  | .strongCatch => "Strong catch"
  | .strictlyWeak => "Strictly weak"
  | .uncertain => "Uncertain"

def catchEntry (s : Text) (c : CatchReport) : Text :=
  let sev := severityOf c.decision c.tpProbability
  let s := s ++ ("### " ++ severityMarker sev ++ " " ++ decisionName c.decision ++ " — `" ++
    mdInline c.path capName ++ "`\n\n")
  let s := s ++ ("- target: `" ++ mdInline c.target capName ++ "`\n- language: `" ++
    mdInline c.language capName ++ "`\n- decision: **" ++ c.decision.debug ++
    "**\n- tp_probability: " ++ c.tpProbability.toFixed2 ++ " (" ++ c.bucket.debug ++ ")\n")
  let s := match c.mutant with
    | some m => s ++ ("- mutant `" ++ mdInline m.id capName ++ "`: " ++
        mdInline m.riskDescription capText ++ " (`" ++ mdInline m.path capName ++ "`)\n")
    | none => s
  let s := s ++ ("- rationale: " ++ mdInline c.rationale capText ++ "\n- reproduction: " ++
    mdInline c.reproduction capText ++ "\n\n")
  codeFence s c.language c.source

def catchesSection (s : Text) (r : RunReport) : Text :=
  let s := s ++ "## Catches (report-only)\n\n"
  let s := s ++ ("_Catch mode reports potential bugs; catching tests fail by design and are " ++
    "never landed._\n\n")
  if r.catches.isEmpty then s ++ "_No catches found._\n\n" else r.catches.foldl catchEntry s

def rejectedRow (s : Text) (rej : RejectedCandidate) : Text :=
  s ++ ("| " ++ mdInline rej.target capName ++ " | " ++ mdInline rej.path capName ++ " | " ++
    mdInline rej.reason capText ++ " |\n")

def rejectedSection (s : Text) (r : RunReport) : Text :=
  if r.rejected.isEmpty then s
  else
    let s := s ++ "## Rejected candidates\n\n"
    let s := s ++ "| Target | Path | Reason |\n|---|---|---|\n"
    r.rejected.foldl rejectedRow s ++ "\n"

def warningsSection (s : Text) (r : RunReport) : Text :=
  if r.warnings.isEmpty then s
  else
    let s := s ++ "## Warnings\n\n"
    r.warnings.foldl (fun s w => s ++ ("- " ++ mdInline w capText ++ "\n")) s ++ "\n"

/-- The Markdown document. -/
def render (report : RunReport) : Text :=
  let s : Text := "# jitgen report\n\n"
  let s := summarySection s report
  let s := match report.mode with
    | .harden => acceptedSection s report
    | .catch => catchesSection s report
  warningsSection (rejectedSection s report) report

end Markdown

end Jitgen
