import Jitgen.Sandbox.Detect
import Jitgen.Sandbox.Env

/-!
# The sandbox as a whole

A backend is chosen once; then every request is planned for it and launched. A launcher that may run
commands without a sandbox is tried again before each launch, and one that failed before its command
started is tried again after.
-/

namespace Jitgen

open Text UnixPath

structure RunRequest where
  command : SpawnRequest
  overlayRoot : Text
  stateRoot : Text
  instance' : Text
  runAs : Option Text

/-- A chosen backend under a policy, with what to tell the operator. -/
structure Sandbox where
  backend : Backend
  policy : SandboxPolicy
  warnings : List Text

abbrev SandboxProg (α : Type) := Fallible CapstoneError HostAns α

def canonicalize (path : Text) : SandboxProg Text :=
  Fallible.attempt (δ := CapstoneError) (.canonicalize path) id fun
    | some p => .ok p
    | none => .error (.executor .io)

/-- Create a directory where nothing stands yet; not even a link is followed. -/
def createFreshDir (dir : Text) : SandboxProg Unit := do
  match ← Fallible.lift (askHost (.symlinkMetadata dir)) with
  | .present => throw (.unsafeSyntheticDir dir)
  | .absent =>
    Fallible.attempt (δ := CapstoneError) (.createDir dir) id fun
      | true => .ok ()
      | false => .error (.executor .io)
  | .unreadable => throw (.executor .io)

namespace Sandbox

def new (available : List Backend) (policy : SandboxPolicy) : Except CapstoneError Sandbox :=
  match select available policy with
  | .ok backend => .ok ⟨backend, policy, extraRefusalWarnings policy.toExecPolicy⟩
  | .error e => .error e

/-- The helper that cuts off nothing but the network is tried only where it may be chosen. -/
def detectAndSelect (os : HostOs) (policy : SandboxPolicy) : SandboxProg Sandbox := do
  let available ← Fallible.lift (Detect.detect os)
  let helper ← Fallible.lift
    (if policy.allowUnsafeLocal || policy.backend = .netnsHelper then Detect.netnsHelperAvailable os
    else pure false)
  Fallible.ofExcept (new (if helper then available ++ [.netnsHelper] else available) policy)

/-- A launcher failed before its command started, and fails again. -/
def isPersistentWrapperFailure (b : Backend) (innerNeverStarted : Bool) : HostProg Bool :=
  if innerNeverStarted && b.reprobesOnInnerNeverStarted then do
    return !(← Detect.backendAvailableNow b)
  else return false

def homeDir (overlayRoot : Text) : Text := UnixPath.push overlayRoot ".jitgen-home"

def tmpDir (overlayRoot : Text) : Text := UnixPath.push overlayRoot ".jitgen-tmp"

def planInput (s : Sandbox) (req : RunRequest) (overlayRoot stateRoot : Text) (parent : EnvMap) :
    PlanInput where
  backend := s.backend
  req := req.command
  overlayRoot := overlayRoot
  syntheticTmp := tmpDir overlayRoot
  env := (buildEnv parent s.policy.toExecPolicy (homeDir overlayRoot) (tmpDir overlayRoot)
    overlayRoot stateRoot).1
  policy := s.policy.toExecPolicy
  instance' := req.instance'
  runAs := req.runAs

variable [WordChars]

/-- Launch a plan, and give up on the backend when it cannot start commands any more. -/
def execute (s : Sandbox) (plan : SandboxPlan) : SandboxProg ExecutionResult := do
  let launch ← Fallible.lift (askHost (.launch plan))
  let r ← Fallible.ofExcept
    ((runReporting plan s.policy.toExecPolicy launch).mapError CapstoneError.executor)
  if ← Fallible.lift (isPersistentWrapperFailure s.backend r.2) then
    throw (.backendUnavailableMidRun s.backend.id)
  return r.1

/-- Make the places for the command's own files and plan the command. -/
def prepare (s : Sandbox) (req : RunRequest) : SandboxProg SandboxPlan := do
  let overlayRoot ← canonicalize req.overlayRoot
  let stateRoot ← canonicalize req.stateRoot
  createFreshDir (homeDir overlayRoot)
  createFreshDir (tmpDir overlayRoot)
  let parent ← Fallible.lift (askHost .processEnv)
  Fallible.ofExcept
    ((buildPlan (s.planInput req overlayRoot stateRoot parent)).mapError CapstoneError.executor)

def run (s : Sandbox) (req : RunRequest) : SandboxProg ExecutionResult := do
  if ← Fallible.lift (Detect.backendSilentlyDegrades s.backend) then
    throw (.executor (.sandboxDegraded s.backend.id))
  let plan ← s.prepare req
  s.execute plan

/-- What a client of the sandbox asks. -/
abbrev RunAns (_ : RunRequest) : Type := Except CapstoneError ExecutionResult

/-- Choose a backend and serve a client, whose requests may depend on the results before. -/
def session {α : Type} (os : HostOs) (policy : SandboxPolicy) (client : Prog RunAns α) :
    SandboxProg α := do
  let s ← detectAndSelect os policy
  Fallible.lift (client.serve fun req => (s.run req).run)

end Sandbox

end Jitgen
