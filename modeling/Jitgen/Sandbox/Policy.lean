import Jitgen.Core.Config
import Jitgen.Framework.UnixPath

/-!
# Backends, policy and requests of the sandbox
-/

namespace Jitgen

open Text

inductive Backend where
  | bwrap
  | firejail
  | sandboxExec
  | docker
  | podman
  | netnsHelper
  | constrainedLocal
  deriving DecidableEq

namespace Backend

def id : Backend → Text
  | .bwrap => "bwrap"
  | .firejail => "firejail"
  | .sandboxExec => "sandbox-exec"
  | .docker => "docker"
  | .podman => "podman"
  | .netnsHelper => "netns-helper"
  | .constrainedLocal => "constrained-local"

/-- Lowercase texts of a launcher that ran the command without any sandbox. -/
def silentDegradationMarkers : Backend → Option (List Text)
  | .firejail => some ["existing sandbox was detected", "without any additional sandboxing"]
  | _ => none

def hasSilentDegradationMode (b : Backend) : Bool := b.silentDegradationMarkers.isSome

def stderrShowsSilentDegradation (b : Backend) (stderr : Text) : Bool :=
  match b.silentDegradationMarkers with
  | some markers => markers.any (hasSubstr (toAsciiLower stderr))
  | none => false

/-- Tiers without resource limits of their own run the command below a shell that sets them. -/
def usesPreamble : Backend → Bool
  | .sandboxExec | .bwrap | .netnsHelper | .constrainedLocal => true
  | _ => false

def isContainer : Backend → Bool
  | .docker | .podman => true
  | _ => false

end Backend

structure ResourceLimits where
  addressSpaceBytes : Nat
  cpuSeconds : Nat
  openFiles : Nat
  processes : Nat
  fileSizeBytes : Nat
  memoryBytes : Nat
  cpus : Nat

def ResourceLimits.default : ResourceLimits where
  addressSpaceBytes := 2 * 1024 * 1024 * 1024
  cpuSeconds := 120
  openFiles := 1024
  processes := 512
  fileSizeBytes := 256 * 1024 * 1024
  memoryBytes := 1024 * 1024 * 1024
  cpus := 2

/-- The policy of the sandbox, from trusted configuration only. -/
structure ExecPolicy where
  shellAllowed : Bool
  envAllowlistExtra : List Text
  envSetExtra : List (Text × Text)
  outputCapBytes : Nat
  limits : ResourceLimits
  dockerImage : Option Text

def ExecPolicy.fromTrusted (t : TrustedConfig) : ExecPolicy where
  shellAllowed := t.shellAllowed
  envAllowlistExtra := t.envAllowlistExtra
  envSetExtra := t.envSetExtra
  outputCapBytes := 256 * 1024
  limits := .default
  dockerImage := t.dockerImage

/-- Hints of an adapter at what tells a failed build from a failed test. -/
structure BuildSignal where
  exitCodes : List Int
  markers : List Text
  deriving DecidableEq

def BuildSignal.default : BuildSignal := ⟨[], []⟩

structure SpawnRequest where
  program : Text
  args : List Text
  cwdRel : Text
  shell : Bool
  buildSignal : BuildSignal
  deriving DecidableEq

/-- Variables of a child process, ordered by name. -/
abbrev EnvMap := List (Text × Text)

/-- Set a variable, in the place of its name. -/
def EnvMap.insert (name value : Text) : EnvMap → EnvMap
  | [] => [(name, value)]
  | (n, v) :: rest =>
    if n = name then (name, value) :: rest
    else if name < n then (name, value) :: (n, v) :: rest
    else (n, v) :: EnvMap.insert name value rest

inductive SandboxError where
  | shellNotAllowed
  | unsafeCwd (cwd : Text)
  | missingImage
  | floatingImageTag (image : Text)
  | invalidInstance (instance' : Text)
  | unsafeOverlayPath (path : Text)
  | untrustedLauncher (program : Text)
  | missingContainerUser
  | invalidRunAs (user : Text)
  | emptyCommand
  | optionLikeProgram
  | nonAbsolutePath (path : Text)
  | spawn (program : Text)
  | sandboxDegraded (backend : Text)
  | io
  deriving DecidableEq

end Jitgen
