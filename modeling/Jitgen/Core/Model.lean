import Jitgen.Framework.Binary64

/-!
# Domain types

Run mode and strategy, targets, candidates, mutants, context bundles and execution results, with
the observed classification of an execution.
-/

namespace Jitgen

inductive Mode where
  | harden
  | catch
  deriving DecidableEq, Repr

inductive Strategy where
  | auto
  | harden
  | dodgyDiff
  | intentAware
  deriving DecidableEq, Repr

def Mode.asStr : Mode → Text
  | .harden => "harden"
  | .catch => "catch"

def Mode.parse (s : Text) : Option Mode :=
  if s = "harden" then some .harden else if s = "catch" then some .catch else none

theorem Mode.parse_asStr (m : Mode) : Mode.parse m.asStr = some m := by
  cases m <;> decide

/-- Resolve `auto` to a concrete strategy given the run mode. -/
def Strategy.resolve : Strategy → Mode → Strategy
  | .auto, .harden => .harden
  | .auto, .catch => .intentAware
  | s, _ => s

@[simp] theorem Strategy.resolve_ne_auto (s : Strategy) (m : Mode) : s.resolve m ≠ .auto := by
  cases s <;> cases m <;> decide

/-- Name a debug print shows. -/
def Mode.debug : Mode → Text
  | .harden => "Harden"
  | .catch => "Catch"

def Strategy.debug : Strategy → Text
  | .auto => "Auto"
  | .harden => "Harden"
  | .dodgyDiff => "DodgyDiff"
  | .intentAware => "IntentAware"

abbrev TargetId := Text
abbrev AdapterId := Text
abbrev RevisionId := Text
abbrev RunId := Text

inductive SymbolKind where
  | function
  | method
  | «class»
  | module
  | hunk
  deriving DecidableEq

/-- A contiguous line range, 1-based and inclusive. -/
structure LineRange where
  start : Nat
  «end» : Nat
  start_pos : 1 ≤ start
  start_le_end : start ≤ «end»
  deriving DecidableEq

def LineRange.new (start «end» : Nat) : Option LineRange :=
  if h : 1 ≤ start ∧ start ≤ «end» then some ⟨start, «end», h.1, h.2⟩ else none

/-- A risk score: a number of `[0, 1]`, never a NaN. -/
structure RiskScore where
  value : Binary64
  zero_le : Binary64.le .zero value = true
  le_one : Binary64.le value .one = true
  deriving DecidableEq

def RiskScore.new (v : Binary64) : Option RiskScore :=
  if h : Binary64.le .zero v = true ∧ Binary64.le v .one = true then some ⟨v, h.1, h.2⟩ else none

structure Target where
  id : TargetId
  adapter : AdapterId
  path : Text
  symbol : Option Text
  kind : SymbolKind
  span : LineRange
  risk : RiskScore
  deriving DecidableEq

/-- A target with its priority score and the explanation of the score. -/
structure RankedTarget where
  target : Target
  score : Binary64
  rationale : Text
  deriving DecidableEq

structure TestCandidate where
  target : TargetId
  relPath : Text
  source : Text
  testName : Option Text
  attempt : Nat
  deriving DecidableEq

inductive MutantStatus where
  | proposed
  | valid
  | invalid
  deriving DecidableEq

structure Mutant where
  id : Text
  riskDescription : Text
  path : Text
  diff : Text
  status : MutantStatus
  deriving DecidableEq

structure ContextBudget where
  maxTokens : Nat
  maxFiles : Nat
  maxBytesPerFile : Nat
  deriving DecidableEq

inductive ContextItemKind where
  | changedCode
  | neighboringCode
  | existingTest
  | signature
  | diffSummary
  deriving DecidableEq

structure ContextItem where
  kind : ContextItemKind
  path : Option Text
  content : Text
  deriving DecidableEq

structure ContextBundle where
  target : TargetId
  items : List ContextItem
  budget : ContextBudget
  redacted : Bool
  deriving DecidableEq

inductive ExecOutcome where
  | passed
  | failed
  | buildError
  | timeout
  | errored
  deriving DecidableEq

def ExecOutcome.debug : ExecOutcome → Text
  | .passed => "Passed"
  | .failed => "Failed"
  | .buildError => "BuildError"
  | .timeout => "Timeout"
  | .errored => "Errored"

structure ExecutionResult where
  outcome : ExecOutcome
  exitCode : Option Int
  durationMs : Nat
  truncated : Bool
  stdout : Text
  stderr : Text
  deriving DecidableEq

def ExecutionResult.passed (r : ExecutionResult) : Bool := r.outcome == .passed

structure CatchExecution where
  base : ExecutionResult
  head : ExecutionResult
  deriving DecidableEq

inductive CatchClass where
  | hardenPass
  | weakCatch
  | noCatch
  | broken
  | flaky
  deriving DecidableEq

/-- No pass or fail can be read off such an outcome. -/
def unusable : ExecOutcome → Bool
  | .buildError => true
  | .errored => true
  | .timeout => true
  | _ => false

def CatchClass.fromSingle (result : ExecutionResult) : CatchClass :=
  match result.outcome with
  | .passed => .hardenPass
  | .failed => .noCatch
  | _ => .broken

def CatchClass.fromCatch (exec : CatchExecution) : CatchClass :=
  if unusable exec.base.outcome || unusable exec.head.outcome then .broken
  else if exec.base.passed && exec.head.outcome == .failed then .weakCatch
  else .noCatch

theorem CatchClass.fromSingle_eq_hardenPass {r : ExecutionResult} :
    CatchClass.fromSingle r = .hardenPass ↔ r.outcome = .passed := by
  unfold CatchClass.fromSingle
  cases r.outcome <;> simp

theorem CatchClass.fromCatch_eq_weakCatch {e : CatchExecution} :
    CatchClass.fromCatch e = .weakCatch ↔ e.base.outcome = .passed ∧ e.head.outcome = .failed := by
  unfold CatchClass.fromCatch ExecutionResult.passed
  cases e.base.outcome <;> cases e.head.outcome <;> simp [unusable]

inductive TpBucket where
  | veryLow
  | low
  | medium
  | high
  | veryHigh
  deriving DecidableEq

def TpBucket.fromProbability (p : Binary64) : TpBucket :=
  if Binary64.lt p .oneFifth then .veryLow
  else if Binary64.lt p .twoFifths then .low
  else if Binary64.lt p .threeFifths then .medium
  else if Binary64.lt p .fourFifths then .high
  else .veryHigh

inductive CatchDecision where
  | strongCatch
  | strictlyWeak
  | uncertain
  deriving DecidableEq

def TpBucket.debug : TpBucket → Text
  | .veryLow => "VeryLow"
  | .low => "Low"
  | .medium => "Medium"
  | .high => "High"
  | .veryHigh => "VeryHigh"

def CatchDecision.debug : CatchDecision → Text
  | .strongCatch => "StrongCatch"
  | .strictlyWeak => "StrictlyWeak"
  | .uncertain => "Uncertain"

structure AssessorSignal where
  assessor : Text
  score : Binary64
  rationale : Text
  deriving DecidableEq

structure WeakCatchAssessment where
  tpProbability : Binary64
  bucket : TpBucket
  decision : CatchDecision
  rationale : Text
  signals : List AssessorSignal
  deriving DecidableEq

structure ClassifiedResult where
  «class» : CatchClass
  assessment : Option WeakCatchAssessment
  deriving DecidableEq

end Jitgen
