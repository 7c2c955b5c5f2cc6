import Jitgen.Feedback.LlmStep
import Jitgen.Feedback.Seam

/-!
# Generation strategies

Harden and dodgy-diff return screened candidates. The intent-aware pipeline infers risks, turns
them into mutants, keeps the mutants that pass the existing suite, and replays a killing test of
each on the changed revision.
-/

namespace Jitgen

structure StrategyConfig where
  numCandidates : Nat
  maxMutants : Nat
  deriving DecidableEq

def StrategyConfig.default : StrategyConfig := ⟨1, 8⟩

/-- Language, symbol and placement of the generated test. -/
structure GenTarget where
  language : Text
  symbol : Option Text
  relPath : Text
  deriving DecidableEq

/-- A killing test replayed on both revisions. -/
structure HarvestedCatch where
  candidate : TestCandidate
  mutant : Mutant
  execution : CatchExecution
  «class» : CatchClass
  deriving DecidableEq

structure GenerationOutcome where
  candidates : List TestCandidate
  catches : List HarvestedCatch
  deriving DecidableEq

variable [WordChars]

namespace IntentAware

/-- Request of an intent-aware step. -/
def stepRequest (target : GenTarget) (prompt : Prompt) : LlmRequest :=
  request prompt .catch .intentAware target.language target.symbol

/-- Attach the inferred risks to the mutants, by index. -/
def attachRisks (risks : List Text) (mutants : List Mutant) : List Mutant :=
  mutants.mapIdx fun i m =>
    match risks[i]? with
    | some r => { m with riskDescription := r }
    | none => m

/-- Keep the mutants on which the existing suite passes. -/
def keepValid : List Mutant → Feedback (List Mutant)
  | [] => pure []
  | m :: ms => do
    let existing ← runExisting (.mutant m)
    let valid ← keepValid ms
    return if existing.passed then { m with status := .valid } :: valid else valid

/-- Generate, screen and replay the killing test of one valid mutant. -/
def harvest (context : ContextBundle) (target : GenTarget) (m : Mutant) :
    Feedback (Option HarvestedCatch) := do
  let resp ← generate (stepRequest target (Prompts.killingTestPrompt context m))
  let candidate := parseCandidate resp.raw context.target target.relPath 0
  if (validateCandidate candidate.source).ok = false then
    return none
  else do
    let base ← runCandidate candidate .base
    let onMutant ← runCandidate candidate (.mutant m)
    if base.passed && onMutant.outcome == .failed then do
      let head ← runCandidate candidate .head
      return some ⟨candidate, m, ⟨base, head⟩, CatchClass.fromCatch ⟨base, head⟩⟩
    else
      return none

def harvestAll (context : ContextBundle) (target : GenTarget) :
    List Mutant → Feedback (List HarvestedCatch)
  | [] => pure []
  | m :: ms => do
    let h ← harvest context target m
    let hs ← harvestAll context target ms
    return h.toList ++ hs

def run (context : ContextBundle) (target : GenTarget) (cfg : StrategyConfig) :
    Feedback (List HarvestedCatch) := do
  let risksResp ← generate (stepRequest target (Prompts.inferRisksPrompt context))
  let risks := parseRisks risksResp.raw
  if risks.isEmpty then
    return []
  else do
    let mutantsResp ← generate (stepRequest target (Prompts.makeMutantsPrompt context risks))
    let mutants := parseMutants mutantsResp.raw context.target
    if mutants.isEmpty then
      return []
    else do
      let valid ← keepValid ((attachRisks risks mutants).take cfg.maxMutants)
      harvestAll context target valid

end IntentAware

/-- Screened candidates of a single-shot prompt, one per attempt. -/
def generateSimple (prompt : Prompt) (context : ContextBundle) (target : GenTarget) (mode : Mode)
    (strategy : Strategy) (attempts : List Nat) : Feedback (List TestCandidate) :=
  match attempts with
  | [] => pure []
  | attempt :: rest => do
    let req := { request prompt mode strategy target.language target.symbol with
      attempt := attempt % 2 ^ 16 }
    let resp ← generate req
    let candidate := parseCandidate resp.raw context.target target.relPath (attempt % 2 ^ 16)
    let out ← generateSimple prompt context target mode strategy rest
    return if (validateCandidate candidate.source).ok then candidate :: out else out

/-- Dispatch by the resolved strategy. -/
def generateCandidates (context : ContextBundle) (target : GenTarget) (strategy : Strategy)
    (mode : Mode) (cfg : StrategyConfig) : Feedback GenerationOutcome :=
  match strategy.resolve mode with
  | .harden => do
    let cs ← generateSimple (Prompts.hardenPrompt context) context target mode .harden
      (List.range cfg.numCandidates)
    return ⟨cs, []⟩
  | .dodgyDiff => do
    let cs ← generateSimple (Prompts.dodgyDiffPrompt context) context target mode .dodgyDiff
      (List.range cfg.numCandidates)
    return ⟨cs, []⟩
  | _ => do
    let hs ← IntentAware.run context target cfg
    return ⟨[], hs⟩

end Jitgen
