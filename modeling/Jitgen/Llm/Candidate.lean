import Jitgen.Context.Prompt

/-!
# Provider requests, candidate parsing and static validation
-/

namespace Jitgen

open Text

inductive GenerationError where
  | provider (message : Text)
  | config (message : Text)
  deriving DecidableEq

structure LlmRequest where
  prompt : Prompt
  mode : Mode
  strategy : Strategy
  language : Text
  symbol : Option Text
  attempt : Nat
  repairFeedback : Option Text
  deriving DecidableEq

structure LlmResponse where
  raw : Text
  deriving DecidableEq

def maxRawBytes : Nat := 256 * 1024

/-- A line that opens or closes a fenced block. -/
def isFenceLine (line : Text) : Bool := (trimStart line).startsWith "```"

/-- Body of the first fenced block, or the trimmed text when there is no fence. -/
def extractCode (raw : Text) : Text :=
  let raw := bytePrefix maxRawBytes raw
  match (lines raw).dropWhile (!isFenceLine ·) with
  | _ :: after => trimEnd (join "\n" (after.takeWhile (!isFenceLine ·)))
  | [] => trim raw

/-- The candidate with the caller's path and the code of the model output. -/
def parseCandidate (raw : Text) (target : TargetId) (relPath : Text) (attempt : Nat) :
    TestCandidate where
  target := target
  relPath := relPath
  source := extractCode raw
  testName := none
  attempt := attempt

example : extractCode "Here:\n```rust\nlet x = 1;\n```\nbye" = ("let x = 1;" : Text) := by decide

def maxValidateBytes : Nat := 512 * 1024

structure ValidationResult where
  ok : Bool
  issues : List Text
  deriving DecidableEq

/-- Lowercased needles and why they are dangerous. -/
def dangerous : List (Text × Text) :=
  [("rm -rf", "destructive shell command"),
    ("remove_dir_all", "recursive filesystem deletion"),
    ("shutil.rmtree", "recursive filesystem deletion"),
    (".rmsync", "recursive filesystem deletion"),
    ("os.system", "shell execution"),
    ("subprocess.", "process spawning"),
    ("child_process", "process spawning"),
    ("command::new", "process spawning"),
    ("processbuilder", "process spawning (java)"),
    ("getruntime", "Runtime.exec (java)"),
    (".popen", "process spawning (python)"),
    ("/etc/passwd", "sensitive file access"),
    ("/.ssh/", "ssh key access"),
    (".aws/credentials", "credential access"),
    ("import socket", "raw network access"),
    ("net.connect", "raw network access")]

/-- Match every needle against the lowercased source and against its whitespace-free copy. -/
def validateCandidate (source : Text) : ValidationResult :=
  let source := bytePrefix maxValidateBytes source
  let lower := toAsciiLower source
  let collapsed := lower.filter (!isWhitespace ·)
  let hits := dangerous.filter fun d => hasSubstr lower d.1 || hasSubstr collapsed d.1
  let issues : List Text := hits.map fun d =>
    ("dangerous construct '" : Text) ++ d.1 ++ "' (" ++ d.2 ++ ")"
  ⟨issues.isEmpty, issues⟩

theorem validateCandidate_ok_iff (source : Text) :
    (validateCandidate source).ok = true ↔ (validateCandidate source).issues = [] := by
  simp [validateCandidate]

example : (validateCandidate "std :: process :: Command :: new(\"sh\")").ok = false := by decide

end Jitgen
