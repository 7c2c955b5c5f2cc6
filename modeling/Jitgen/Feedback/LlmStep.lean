import Jitgen.Feedback.Prompts
import Jitgen.Llm.Candidate

/-!
# Step requests and bounded parsing of structured model output
-/

namespace Jitgen

open Text

def maxRisks : Nat := 24

def maxRiskChars : Nat := 200

def maxMutants : Nat := 16

def maxMutantDiffChars : Nat := 8 * 1024

def maxPathChars : Nat := 512

/-- The request of a step prompt. -/
def request (prompt : Prompt) (mode : Mode) (strategy : Strategy) (language : Text)
    (symbol : Option Text) : LlmRequest where
  prompt := prompt
  mode := mode
  strategy := strategy
  language := language
  symbol := symbol
  attempt := 0
  repairFeedback := none

def blockBody (ls : List Text) : Text := trimEnd (join "\n" ls)

/-- Blocks from here on; `some ls` holds the lines of the block being read. -/
def blocksFrom : Option (List Text) → List Text → List Text
  | none, [] => []
  | some ls, [] => [blockBody ls]
  | none, l :: rest => if isFenceLine l then blocksFrom (some []) rest else blocksFrom none rest
  | some ls, l :: rest =>
    if isFenceLine l then blockBody ls :: blocksFrom none rest
    else blocksFrom (some (ls ++ [l])) rest

/-- Bodies of all fenced code blocks; an unterminated last fence runs to the end. -/
def fencedBlocks (raw : Text) : List Text := blocksFrom none (lines (bytePrefix maxRawBytes raw))

/-- Path and diff of a mutant block: its first line must name the path. -/
def parseMutantBlock (block : Text) : Option (Text × Text) :=
  match lines block with
  | [] => none
  | h :: rest =>
    let header := trim h
    match (stripPrefix "path:" header).or (stripPrefix "path =" header) with
    | none => none
    | some p =>
      let path := trim p
      let diff := join "\n" rest
      if path.isEmpty || isBlank diff then none
      else some (path.take maxPathChars, diff.take maxMutantDiffChars)

variable [WordChars]

/-- One risk per non-empty line of the first fenced block. -/
def parseRisks (raw : Text) : List Text :=
  match fencedBlocks raw with
  | [] => []
  | block :: _ =>
    ((((lines block).map trim).filter (!·.isEmpty)).take maxRisks).map fun l =>
      (redact l).text.take maxRiskChars

/-- Mutants of the fenced blocks, numbered in order. -/
def parseMutants (raw idPrefix : Text) : List Mutant :=
  (((fencedBlocks raw).take maxMutants).filterMap parseMutantBlock).mapIdx fun n pd =>
    { id := idPrefix ++ "-m" ++ ofNat n
      riskDescription := (redact (("mutant " : Text) ++ ofNat n)).text
      path := pd.1
      diff := pd.2
      status := .proposed }

theorem parseMutants_length_le (raw idPrefix : Text) :
    (parseMutants raw idPrefix).length ≤ maxMutants := by
  simp only [parseMutants, List.length_mapIdx]
  calc _ ≤ ((fencedBlocks raw).take maxMutants).length := List.length_filterMap_le _ _
    _ ≤ maxMutants := List.length_take_le _ _

end Jitgen
