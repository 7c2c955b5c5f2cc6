import Jitgen.Report.Model

/-!
# The findings gate
-/

namespace Jitgen

structure GatingFinding where
  target : Text
  path : Option Text
  tpProbability : Binary64
  fingerprint : Text
  deriving DecidableEq

inductive GateVerdict where
  | disabled
  | pass
  | advisory (findings : List GatingFinding)
  | triggered (findings : List GatingFinding)
  deriving DecidableEq

def GateVerdict.isFailure : GateVerdict → Bool
  | .triggered _ => true
  | _ => false

/-- The mutated path of a catch, unless it is empty. -/
def mutantPath (c : CatchReport) : Option Text :=
  (c.mutant.map (·.path)).filter (!·.isEmpty)

/-- Stable identity of a catch: its target plus the mutated path. -/
def catchFingerprint (c : CatchReport) : Text :=
  match mutantPath c with
  | some path => c.target ++ [' '] ++ path
  | none => c.target

def GatingFinding.fromCatch (c : CatchReport) : GatingFinding where
  target := c.target
  path := mutantPath c
  tpProbability := c.tpProbability
  fingerprint := catchFingerprint c

/-- The fingerprints suppressed from the gate. -/
structure Baseline where
  entries : List Text

def Baseline.empty : Baseline := ⟨[]⟩

def Baseline.contains (b : Baseline) (c : CatchReport) : Bool :=
  b.entries.contains (catchFingerprint c)

/-- Strong, at or above the threshold, and not in the baseline. -/
def gates (threshold : Binary64) (baseline : Baseline) (c : CatchReport) : Bool :=
  c.decision == .strongCatch && Binary64.le threshold c.tpProbability && !baseline.contains c

/-- The gate's verdict on a finished run. -/
def gateExitCode (report : RunReport) (threshold : Binary64) (baseline : Baseline)
    (warnOnly failOnCatch : Bool) : GateVerdict :=
  if !failOnCatch then .disabled
  else
    let gating := (report.catches.filter (gates threshold baseline)).map GatingFinding.fromCatch
    if gating.isEmpty then .pass
    else if warnOnly then .advisory gating
    else .triggered gating

theorem gateExitCode_isFailure_iff (report : RunReport) (threshold : Binary64)
    (baseline : Baseline) (warnOnly failOnCatch : Bool) :
    (gateExitCode report threshold baseline warnOnly failOnCatch).isFailure = true ↔
      failOnCatch = true ∧ warnOnly = false ∧
        ∃ c ∈ report.catches, gates threshold baseline c = true := by
  cases failOnCatch with
  | false => simp [gateExitCode, GateVerdict.isFailure]
  | true =>
    by_cases h : ∃ c ∈ report.catches, gates threshold baseline c = true
    · have hne : report.catches.filter (gates threshold baseline) ≠ [] := by
        simpa [List.filter_eq_nil_iff] using h
      cases warnOnly <;> simp [gateExitCode, GateVerdict.isFailure, hne, h]
    · have hnil : report.catches.filter (gates threshold baseline) = [] := by
        simpa [List.filter_eq_nil_iff] using h
      simp [gateExitCode, GateVerdict.isFailure, hnil, h]

end Jitgen
