import Jitgen.Feedback.Seam
import Jitgen.Llm.Json
import Jitgen.Feedback.LlmStep

/-!
# Assessor ensemble

Deterministic rules give a gate and a probability; the model judge may lower the probability.
-/

namespace Jitgen

open Text

def gateHeadSignalMin : Binary64 := .one

def assertionMarkers : List Text :=
  ["assert", "assertion", "panicked", "expected", "to equal", "to be", "expect(", "should be",
    "did not"]

def envMarkers : List Text :=
  ["command not found", "no such file", "modulenotfounderror", "cannot find module",
    "importerror", "could not compile", "connection refused", "permission denied",
    "name or service not known", "network is unreachable"]

structure RuleAssessment where
  gatePass : Bool
  probability : Binary64
  signals : List AssessorSignal

def evidenceClean (exec : CatchExecution) : Bool :=
  exec.base.passed && exec.head.outcome == .failed

/-- The lowercased head output in which markers are looked for. -/
def headBlob (exec : CatchExecution) : Text :=
  toAsciiLower exec.head.stdout ++ ['\n'] ++ toAsciiLower exec.head.stderr

def hasMarker (markers : List Text) (blob : Text) : Bool := markers.any (hasSubstr blob ·)

/-- How much the head failure looks like an assertion; an environment marker wins. -/
def headSignal (exec : CatchExecution) : Binary64 :=
  if hasMarker envMarkers (headBlob exec) then .oneFifth
  else if hasMarker assertionMarkers (headBlob exec) then .one
  else .half

def unit (b : Bool) : Binary64 := if b then .one else .zero

def assessRules (exec : CatchExecution) (stable : Bool) : RuleAssessment :=
  let clean := evidenceClean exec
  let evidence := unit clean
  let stability := unit stable
  let hsig := headSignal exec
  { gatePass := clean && stable && Binary64.le gateHeadSignalMin hsig
    probability := (evidence.mul stability).mul hsig
    signals :=
      [⟨"rule:evidence", evidence,
          if clean then "base passed and head failed an assertion (clean weak-catch evidence)"
          else "head did not fail as a clean assertion over a passing base"⟩,
        ⟨"rule:stability", stability,
          if stable then "observed class was stable across the flake filter"
          else "observed class was not stable across the flake filter"⟩,
        ⟨"rule:head_signal", hsig,
          if Binary64.le .one hsig then
            "head output resembles a genuine assertion/behavioral failure"
          else if Binary64.le hsig .oneFifth then
            "head output resembles an environment/harness problem, not a bug"
          else "head failure signal is ambiguous"⟩] }

def neutralScore : Binary64 := .one

def maxRationale : Nat := 240

structure JudgeSignal where
  score : Binary64
  rationale : Text

def JudgeSignal.neutral (rationale : Text) : JudgeSignal := ⟨neutralScore, rationale⟩

/-- A finite JSON number under `tp_probability`, clamped to `[0, 1]`. -/
def parseProbability (value : Json) : Option Binary64 :=
  ((value.get "tp_probability").bind Json.asF64).bind fun n =>
    if n.isFinite then some (n.clamp .zero .one) else none

variable [WordChars] [JsonText]

def parseRationale (value : Json) : Text :=
  let raw := ((value.get "rationale").bind Json.asStr).getD []
  ((redact raw).text.map fun c => if isControl c then ' ' else c).take maxRationale

/-- The signal of a judge's reply; anything but strict JSON is neutral. -/
def judgeSignal : Except GenerationError LlmResponse → JudgeSignal
  | .error _ => .neutral "llm judge unavailable; using deterministic rules only"
  | .ok resp =>
    match JsonText.fromStr (extractCode resp.raw) with
    | some value => ⟨(parseProbability value).getD neutralScore, parseRationale value⟩
    | none => .neutral "unparseable judge output (not strict JSON); using rules only"

def judgeRequest (evidence : Text) : LlmRequest :=
  request (Prompts.judgePrompt evidence) .catch .intentAware "assessment" none

def maxEvidence : Nat := 4000

/-- Acceptance thresholds over the combined probability. -/
structure AssessConfig where
  strongThreshold : Binary64
  weakThreshold : Binary64
  deriving DecidableEq

def AssessConfig.default : AssessConfig := ⟨.fourFifths, .oneFifth⟩

def AssessConfig.sane (cfg : AssessConfig) : AssessConfig :=
  ⟨cfg.strongThreshold.clamp .zero .one, cfg.weakThreshold.clamp .zero .one⟩

/-- Bounded and redacted evidence for the judge. -/
def buildEvidence (exec : CatchExecution) (context : Option ContextBundle) : Text :=
  let s : Text := ("observed base=" : Text) ++ exec.base.outcome.debug ++ " head=" ++
    exec.head.outcome.debug ++ "\nhead output:\n" ++ exec.head.stdout ++ "\n" ++ exec.head.stderr
  let summaries := ((context.map (·.items)).getD []).filter fun item => item.kind == .diffSummary
  (redact (s ++ (summaries.map fun item =>
    ("\ndiff summary:\n" : Text) ++ item.content).flatten)).text.take maxEvidence

/-- Decision over the sane thresholds. -/
def catchDecision (cfg : AssessConfig) (gatePass : Bool) (combined : Binary64) : CatchDecision :=
  if gatePass && Binary64.le cfg.strongThreshold combined then .strongCatch
  else if Binary64.le combined cfg.weakThreshold then .strictlyWeak
  else .uncertain

def boolDebug (b : Bool) : Text := if b then "true" else "false"

/-- The assessment for one judge signal. -/
def assessWith (exec : CatchExecution) (stable : Bool) (cfg : AssessConfig) (sig : JudgeSignal) :
    WeakCatchAssessment :=
  let cfg := cfg.sane
  let rule := assessRules exec stable
  let combined := (rule.probability.min sig.score).clamp .zero .one
  let decision := catchDecision cfg rule.gatePass combined
  { tpProbability := combined
    bucket := TpBucket.fromProbability combined
    decision := decision
    rationale := (redact (("decision=" : Text) ++ decision.debug ++ "; tp_probability=" ++
      combined.toFixed2 ++ "; rule_gate_pass=" ++ boolDebug rule.gatePass ++
      "; rule_probability=" ++ rule.probability.toFixed2 ++ "; judge_score=" ++
      sig.score.toFixed2 ++ " (the LLM judge can only lower confidence, " ++
      "never raise it or pass the gate).")).text
    signals := rule.signals ++ [⟨"llm:judge", sig.score, sig.rationale⟩] }

/-- Assess a weak catch; without a judge the rules stand alone. -/
def assess (exec : CatchExecution) (stable : Bool) (context : Option ContextBundle)
    (consultJudge : Bool) (cfg : AssessConfig) : Prog Ans WeakCatchAssessment :=
  if consultJudge then
    Prog.call (.generate (judgeRequest (buildEvidence exec context))) fun reply =>
      Prog.pure (assessWith exec stable cfg (judgeSignal reply))
  else
    Prog.pure (assessWith exec stable cfg (.neutral "llm judge not consulted"))

end Jitgen
