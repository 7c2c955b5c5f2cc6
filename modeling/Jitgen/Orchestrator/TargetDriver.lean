import Jitgen.Materialize.Install
import Jitgen.Orchestrator.Executor
import Jitgen.Orchestrator.Process
import Jitgen.Orchestrator.Run

/-!
# Driving targets through the sandbox executor

The executor writes a candidate into the populated overlay before anything is run there, and the
target driver runs the pipeline of a target against that executor.
-/

namespace Jitgen

open Text

/-- What lies outside the executor and the materializer: the provider, the allocation and opening of
overlay directories and the sandboxed run. Each may answer by the history `H`. -/
structure SandboxHost (H : Type) where
  provide : H → LlmRequest → Except GenerationError LlmResponse
  overlayDir : H → PipelineOp → Except ExecError Text
  openOverlay : H → PipelineOp → Except ExecError Text
  execute : H → PipelineOp → Overlay → Except ExecError ExecutionResult

namespace SandboxHost

variable {H : Type} [Digest]

/-- Write the candidate of an operation, if it has one, and run; `refused` is what a failed write
comes to. -/
def executeWith (host : SandboxHost H)
    (refused : MaterializeError → Except ExecError ExecutionResult) (h : H) (o : PipelineOp)
    (overlay : Overlay) : Except ExecError ExecutionResult :=
  match o with
  | .runCandidate candidate _ => do
    let root ← host.openOverlay h o
    match Materialize.materialize root overlay candidate with
    | .ok (_, overlay) => host.execute h o overlay
    | .error e => refused e
  | _ => host.execute h o overlay

def hostWith (host : SandboxHost H)
    (refused : MaterializeError → Except ExecError ExecutionResult) : Host H where
  provide := host.provide
  overlayDir := host.overlayDir
  execute := host.executeWith refused

/-- A failed write fails the execution. -/
def toHost (host : SandboxHost H) : Host H := host.hostWith fun e => .error ⟨e.display⟩

/-- The same, with a verdict in place of the failure when the destination was taken. -/
def tolerant (host : SandboxHost H) (verdict : ExecutionResult) : Host H :=
  host.hostWith fun e => if e.destinationTaken then .ok verdict else .error ⟨e.display⟩

end SandboxHost

/-- The fixed inputs of the targets of a run. -/
structure TargetDriver where
  adapters : List Text
  context : Target → ContextBundle
  promptHints : List Text
  runConfig : RunConfig

variable [WordChars] [JsonText]

/-- Run one ranked target through the pipeline. -/
def TargetDriver.process (d : TargetDriver) (rt : RankedTarget) : Drive Ans TargetOutcome :=
  if d.adapters.contains rt.target.adapter then
    (Fallible.hoist DriveOp.ext
      (processTarget rt (d.context rt.target) d.promptHints d.runConfig)).mapError .feedback
  else
    throw (.invalid "adapter"
      (("no adapter " : Text) ++ debugQuoted rt.target.adapter ++ " for target"))

/-- Answers of the store and of the executor, each by the history of the drive. -/
def driveEnv (store : Trace (DriveAns Ans) → (o : StoreOp) → Except Text o.Res)
    (answer : Trace (DriveAns Ans) → (o : PipelineOp) → Ans o) : Env (DriveAns Ans) := fun h o =>
  match o with
  | .store o => store h o
  | .ext o => answer h o

/-- A drive of the ranked targets of a run over pinned revisions. -/
structure SandboxedDrive where
  revs : Revisions
  host : SandboxHost (Trace (DriveAns Ans))
  store : Trace (DriveAns Ans) → (o : StoreOp) → Except Text o.Res
  driver : TargetDriver
  run : RunId
  configFp : Text
  ranked : List RankedTarget

namespace SandboxedDrive

variable [Serde] [Digest]

/-- Result and events of the drive after the history `h`, when the executor runs on `host`. -/
def resultOn (d : SandboxedDrive) (host : Host (Trace (DriveAns Ans))) (h : Trace (DriveAns Ans)) :
    Except OrchestratorError (List TargetOutcome) × Trace (DriveAns Ans) :=
  (driveTargets d.run d.ranked d.configFp d.driver.process).run.run
    (driveEnv d.store (SandboxExecutor.answer d.revs host)) h

def result (d : SandboxedDrive) (h : Trace (DriveAns Ans)) :
    Except OrchestratorError (List TargetOutcome) × Trace (DriveAns Ans) :=
  d.resultOn d.host.toHost h

end SandboxedDrive

/-- The outcome is a stored one, read back in this part of the run. -/
def Restored [Serde] {X : Type} {A : X → Type} (t : Trace (DriveAns A)) (out : TargetOutcome) :
    Prop :=
  ∃ run rel bytes, ⟨.store (.readArtifact run rel), .ok (some bytes)⟩ ∈ t ∧
    decodeOutcome bytes = .ok out

section

variable [Serde] [Digest] {X : Type} {A : X → Type} {run : RunId} {configFp : Text}
  {process : RankedTarget → Drive A TargetOutcome} {t : Trace (DriveAns A)} {out : TargetOutcome}

omit [WordChars] [JsonText] [Digest] in
theorem Restored.mono {t' : Trace (DriveAns A)} (h : Restored t out) (hsub : t ⊆ t') :
    Restored t' out := by
  obtain ⟨run, rel, bytes, hmem, hdecode⟩ := h
  exact ⟨run, rel, bytes, hsub hmem, hdecode⟩

omit [WordChars] [JsonText] in
private theorem processStep_returns {id : Text} {p : Drive A TargetOutcome}
    (h : (processStep run id p).Returns t out) : ∃ t₀, t₀ ⊆ t ∧ p.Returns t₀ out := by
  obtain ⟨t₁, t₂, _, rfl, -, h⟩ := Fallible.returns_bind.mp h
  obtain ⟨t₃, t₄, result, rfl, hp, h⟩ := Fallible.returns_bind.mp h
  have hrun := Fallible.returns_capture.mp hp
  cases result with
  | error e =>
    obtain ⟨_, _, _, -, -, hthrow⟩ := Fallible.returns_bind.mp h
    exact absurd hthrow Fallible.returns_throw
  | ok outcome =>
    obtain ⟨_, _, _, -, -, h⟩ := Fallible.returns_bind.mp h
    obtain ⟨_, _, _, -, -, h⟩ := Fallible.returns_bind.mp h
    obtain ⟨_, _, _, -, -, h⟩ := Fallible.returns_bind.mp h
    obtain ⟨-, rfl⟩ := Fallible.returns_pure.mp h
    exact ⟨t₃, fun e he => by simp [he], hrun⟩

omit [WordChars] [JsonText] in
/-- An outcome was read back or comes from processing its target. -/
private theorem driveTarget_returns {i : Nat} {rt : RankedTarget}
    (h : (driveTarget run configFp process i rt).Returns t out) :
    Restored t out ∨ ∃ t₀, t₀ ⊆ t ∧ (process rt).Returns t₀ out := by
  obtain ⟨t₁, t₂, _, rfl, -, h⟩ := Fallible.returns_bind.mp h
  obtain ⟨t₃, t₄, _, rfl, -, h⟩ := Fallible.returns_bind.mp h
  obtain ⟨t₅, t₆, step, rfl, -, h⟩ := Fallible.returns_bind.mp h
  have hsub : t₆ ⊆ t₁ ++ (t₃ ++ (t₅ ++ t₆)) := fun e he => by simp [he]
  cases step with
  | none => exact absurd h Fallible.returns_throw
  | some step =>
    dsimp only at h
    split_ifs at h
    · obtain ⟨t₇, t₈, bytes, rfl, hread, h⟩ := Fallible.returns_bind.mp h
      cases bytes with
      | none =>
        obtain ⟨t₀, hsub₀, hp⟩ := processStep_returns h
        exact .inr ⟨t₀, fun e he => by simp [hsub₀ he], hp⟩
      | some bytes =>
        obtain ⟨-, hdecode⟩ := Fallible.returns_ofExcept.mp h
        unfold readRunArtifact at hread
        split_ifs at hread
        · exact absurd hread Fallible.returns_throw
        · obtain ⟨x, rfl, hx⟩ := Fallible.returns_attempt.mp hread
          have hx : x = .ok (some bytes) := hx
          subst hx
          exact .inl ⟨run, _, bytes, hsub List.mem_cons_self, hdecode⟩
    · obtain ⟨t₀, hsub₀, hp⟩ := processStep_returns h
      exact .inr ⟨t₀, fun e he => by simp [hsub₀ he], hp⟩

omit [WordChars] [JsonText] in
theorem driveTargets_returns {ranked : List RankedTarget} {outcomes : List TargetOutcome}
    (h : (driveTargets run ranked configFp process).Returns t outcomes) :
    ∀ out ∈ outcomes, Restored t out ∨ ∃ rt ∈ ranked, ∃ t₀, t₀ ⊆ t ∧ (process rt).Returns t₀ out := by
  unfold driveTargets at h
  generalize 0 = i at h
  induction ranked generalizing i t outcomes with
  | nil =>
    obtain ⟨-, rfl⟩ := Fallible.returns_pure.mp h
    simp
  | cons rt rest ih =>
    obtain ⟨t₁, t₂, first, rfl, hfirst, h⟩ := Fallible.returns_bind.mp h
    obtain ⟨t₃, t₄, others, rfl, hothers, h⟩ := Fallible.returns_bind.mp h
    obtain ⟨rfl, rfl⟩ := Fallible.returns_pure.mp h
    intro out hout
    rcases List.mem_cons.mp hout with rfl | hout
    · rcases driveTarget_returns hfirst with hr | ⟨t₀, hsub, hp⟩
      · exact .inl (hr.mono fun e he => by simp [he])
      · exact .inr ⟨rt, List.mem_cons_self, t₀, fun e he => by simp [hsub he], hp⟩
    · rcases ih _ hothers out hout with hr | ⟨rt', hrt, t₀, hsub, hp⟩
      · exact .inl (hr.mono fun e he => by simp [he])
      · exact .inr ⟨rt', List.mem_cons_of_mem _ hrt, t₀, fun e he => by simp [hsub he], hp⟩

end

section

variable [Serde] [Digest] {X : Type} {A : X → Type} {run : RunId} {configFp : Text}
  {process : RankedTarget → Drive A TargetOutcome} {known φ : Event (DriveAns A) → Prop}

omit [WordChars] [JsonText] [Serde] [Digest] in
private theorem stateOp_calls (hstore : ∀ o x, φ ⟨.store o, x⟩) (o : StoreOp) :
    Fallible.Calls φ (stateOp o : Drive A o.Res) :=
  Fallible.calls_attempt fun x => hstore o x

omit [WordChars] [JsonText] in
/-- Checkpointing makes store calls only. -/
private theorem checkpoint_calls (hstore : ∀ o x, φ ⟨.store o, x⟩) (id : Text)
    (result : Except OrchestratorError TargetOutcome) :
    Fallible.Calls φ (checkpoint run id result : Drive A TargetOutcome) := by
  have hstate := fun o => stateOp_calls hstore o
  cases result with
  | error e =>
    have hfinish : Fallible.Calls φ (RunHandle.finishStep run (targetStepId id) .failed
        (some e.display) : Drive A Unit) := hstate _
    exact Fallible.calls_bind (Fallible.calls_capture hfinish) fun _ _ _ => Fallible.calls_throw e
  | ok outcome =>
    have hjoin : Fallible.Calls φ (RunHandle.safeJoin (targetArtifact id) : Drive A Unit) := by
      unfold RunHandle.safeJoin
      dsimp only
      split_ifs
      · exact Fallible.calls_throw _
      · exact Fallible.calls_throw _
      · exact Fallible.calls_pure _
    refine Fallible.calls_bind (Fallible.calls_ofExcept _) fun _ bytes _ => ?_
    refine Fallible.calls_bind ?_ fun _ _ _ => ?_
    · refine Fallible.calls_bind hjoin fun _ _ _ => ?_
      refine Fallible.calls_bind (hstate _) fun _ _ _ => ?_
      exact Fallible.calls_bind (hstate _) fun _ _ _ => Fallible.calls_pure _
    · exact Fallible.calls_bind (hstate _) fun _ _ _ => Fallible.calls_pure _

omit [WordChars] [JsonText] in
private theorem processStep_calls (hstore : ∀ o x, φ ⟨.store o, x⟩) {id : Text}
    {p : Drive A TargetOutcome} (hp : Fallible.CallsGiven known φ p) :
    Fallible.CallsGiven known φ (processStep run id p) := by
  refine Fallible.callsGiven_bind (stateOp_calls hstore _).given fun _ _ _ _ => ?_
  refine Fallible.callsGiven_bind (Fallible.callsGiven_capture hp) fun _ result _ _ => ?_
  exact (checkpoint_calls hstore id result).given

omit [WordChars] [JsonText] in
private theorem driveTarget_calls (hstore : ∀ o x, φ ⟨.store o, x⟩) {rt : RankedTarget} (i : Nat)
    (hp : Fallible.CallsGiven known φ (process rt)) :
    Fallible.CallsGiven known φ (driveTarget run configFp process i rt) := by
  refine Fallible.callsGiven_bind (Fallible.calls_ofExcept _).given fun _ _ _ _ => ?_
  refine Fallible.callsGiven_bind (stateOp_calls hstore _).given fun _ _ _ _ => ?_
  refine Fallible.callsGiven_bind (stateOp_calls hstore _).given fun _ step _ _ => ?_
  cases step with
  | none => exact (Fallible.calls_throw _).given
  | some step =>
    dsimp only
    split_ifs
    · refine Fallible.callsGiven_bind ?_ fun _ bytes _ _ => ?_
      · unfold readRunArtifact
        split_ifs
        · exact (Fallible.calls_throw _).given
        · exact (Fallible.calls_attempt fun x => hstore _ x).given
      · cases bytes with
        | none => exact processStep_calls hstore hp
        | some bytes => exact (Fallible.calls_ofExcept _).given
    · exact processStep_calls hstore hp

omit [WordChars] [JsonText] in
theorem driveTargets_calls (hstore : ∀ o x, φ ⟨.store o, x⟩) {ranked : List RankedTarget}
    (hp : ∀ rt ∈ ranked, Fallible.CallsGiven known φ (process rt)) :
    Fallible.CallsGiven known φ (driveTargets run ranked configFp process) := by
  unfold driveTargets
  generalize 0 = i
  induction ranked generalizing i with
  | nil => exact (Fallible.calls_pure _).given
  | cons rt rest ih =>
    have hrest := ih (fun rt' h => hp rt' (List.mem_cons_of_mem _ h)) (i + 1)
    refine Fallible.callsGiven_bind (driveTarget_calls hstore i (hp rt List.mem_cons_self))
      fun _ _ _ _ => ?_
    exact Fallible.callsGiven_bind hrest fun _ _ _ _ => (Fallible.calls_pure _).given

end

end Jitgen
