import Jitgen.Framework.PathJoin
import Jitgen.Orchestrator.Config
import Jitgen.Orchestrator.Doctor
import Jitgen.Orchestrator.TrustedPath

/-!
# The state root

Where the durable state lives: a directory that was asked for, else a default that the environment
gives. A run makes the directory absolute; to resume or to report takes it as it is given.
-/

namespace Jitgen

open Text Doctor

/-- A variable as the configuration sees it; one that is not Unicode counts as unset. -/
def envLookup (env : ProcessEnv) (name : Text) : Option Text := (env name).toOption

/-- What the process finds around it. -/
structure Surroundings where
  env : ProcessEnv
  cwd : Location
  tempDir : Text
  macos : Bool

namespace Surroundings

variable (s : Surroundings)

/-- A variable that is set to more than nothing. -/
def variableOf (name : Text) : Option Text := nonEmpty (envLookup s.env name)

def stateRootCandidate : Text :=
  match s.variableOf "JITGEN_STATE_DIR" with
  | some dir => dir
  | none =>
    match s.variableOf "XDG_STATE_HOME" with
    | some x => x ++ "/jitgen"
    | none =>
      match s.variableOf "HOME" with
      | some home =>
        if s.macos then home ++ "/Library/Application Support/jitgen"
        else home ++ "/.local/state/jitgen"
      | none => UnixPath.push s.tempDir "jitgen-state"

def fallbackStateRoot : Text :=
  let tmp := UnixPath.push s.tempDir "jitgen-state"
  if UnixPath.isAbsolute tmp then tmp else "/tmp/jitgen-state"

/-- A path made absolute by its text. -/
def absolutize (candidate : Text) : Text :=
  match AbsPath.absolute s.cwd candidate with
  | some _ => AbsPath.display s.cwd candidate
  | none => s.fallbackStateRoot

def defaultStateRoot : Text := s.absolutize s.stateRootCandidate

/-- The state root of a run. -/
def resolveStateRoot (trusted : TrustedConfig) : Text :=
  match nonEmpty trusted.stateDir with
  | some dir => AbsPath.display s.cwd dir
  | none => s.defaultStateRoot

/-- The state root to resume or to report from. -/
def stateRootFor (stateDir : Option Text) : Text :=
  match nonEmpty stateDir with
  | some dir => dir
  | none => s.defaultStateRoot

end Surroundings

/-- A process that finds nothing in its environment. -/
def bareSurroundings : Surroundings := ⟨fun _ => .error .notPresent, ["w"], "/tmp", false⟩

end Jitgen
