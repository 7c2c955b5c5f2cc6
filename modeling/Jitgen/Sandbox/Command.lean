import Jitgen.Framework.PathJoin
import Jitgen.Sandbox.Policy

/-!
# Plans of the sandbox

A plan is the exact command line of one backend for a request. Nothing is spawned here.
-/

namespace Jitgen

open Text

/-- The line that witnesses that control reached the inner command. -/
def startSentinel : Text := "jitgen-sandbox: inner-exec"

structure SandboxPlan where
  backend : Backend
  program : Text
  args : List Text
  cwd : Text
  env : EnvMap
  containerName : Option Text
  cleanup : Option (List Text)
  newProcessGroup : Bool
  buildSignal : BuildSignal
  expectsStartSentinel : Bool

structure PlanInput where
  backend : Backend
  req : SpawnRequest
  overlayRoot : Text
  syntheticTmp : Text
  env : EnvMap
  policy : ExecPolicy
  instance' : Text
  runAs : Option Text

def pushComponents : Text → List UnixPath.Component → Option Text
  | path, [] => some path
  | path, .normal s :: comps => pushComponents (UnixPath.push path s) comps
  | path, .curDir :: comps => pushComponents path comps
  | _, _ :: _ => none

/-- The working directory of a request below the overlay root. -/
def validatedCwd (overlayRoot cwdRel : Text) : Except SandboxError Text :=
  if !UnixPath.isAbsolute overlayRoot then .error (.nonAbsolutePath overlayRoot)
  else if cwdRel.contains '\\' then .error (.unsafeCwd cwdRel)
  else
    match pushComponents overlayRoot (UnixPath.components cwdRel) with
    | some path => .ok path
    | none => .error (.unsafeCwd cwdRel)

def validateInstance (s : Text) : Except SandboxError Unit :=
  if 1 ≤ utf8Len s && utf8Len s ≤ 64 &&
      s.all (fun c => isAsciiAlphanumeric c || c == '-' || c == '_') then .ok ()
  else .error (.invalidInstance s)

/-- What precedes and what follows the first occurrence of a separator. -/
def splitOnce (sep : Text) : Text → Option (Text × Text)
  | [] => if sep.isEmpty then some ([], []) else none
  | c :: cs =>
    match stripPrefix sep (c :: cs) with
    | some rest => some ([], rest)
    | none => (splitOnce sep cs).map fun r => (c :: r.1, r.2)

def isDigestPinned (image : Text) : Bool :=
  match splitOnce "@sha256:" image with
  | some (name, digest) =>
    !name.isEmpty && utf8Len digest == 64 &&
      digest.all (fun c => isAsciiDigit c || ('a' ≤ c && c ≤ 'f'))
  | none => false

/-- A non-root pair of numeric ids. -/
def isUidGid (s : Text) : Bool :=
  match splitOnce ":" s with
  | some (uid, gid) =>
    let digits := fun x : Text => !x.isEmpty && x.all isAsciiDigit
    digits uid && digits gid && uid.any (· != '0')
  | none => false

def innerArgv (req : SpawnRequest) (policy : ExecPolicy) : Except SandboxError (List Text) :=
  if req.program.isEmpty then .error .emptyCommand
  else if req.shell then
    if !policy.shellAllowed then .error .shellNotAllowed
    else .ok ["/bin/sh", "-c", req.args.foldl (fun joined a => joined ++ " " ++ a) req.program]
  else if req.program.startsWith "-" then .error .optionLikeProgram
  else .ok (req.program :: req.args)

/-- Shell script that sets the limits, shows the sentinel and runs its arguments. -/
def preambleScript (limits : ResourceLimits) : Text :=
  ("ulimit -t " : Text) ++ ofNat limits.cpuSeconds ++ " 2>/dev/null || true; ulimit -v " ++
    ofNat (limits.addressSpaceBytes / 1024) ++ " 2>/dev/null || true; printf '%s\\n' '" ++
    startSentinel ++ "' >&2; exec \"$@\""

/-- The shell's own arguments; those of the command follow as its positional parameters. -/
def preamble (limits : ResourceLimits) : List Text :=
  ["/bin/sh", "-c", preambleScript limits, "jitgen-sandbox"]

def withRlimitPreamble (inner : List Text) (limits : ResourceLimits) : List Text :=
  preamble limits ++ inner

/-- Quote a path as a string of the sandbox profile language. -/
def sbplString (s : Text) : Text :=
  ['"'] ++ s.flatMap (fun c => if c = '\\' ∨ c = '"' then ['\\', c] else [c]) ++ ['"']

def renderProfile (overlay tmp : Text) : Except SandboxError Text :=
  if !UnixPath.isAbsolute overlay then .error (.nonAbsolutePath overlay)
  else if !UnixPath.isAbsolute tmp then .error (.nonAbsolutePath tmp)
  else .ok (("(version 1)\n(deny default)\n(allow process-fork)\n(allow process-exec)\n" : Text) ++
    "(allow signal (target self))\n(allow sysctl-read)\n(allow mach-lookup)\n" ++
    "(allow file-read*)\n(allow file-write*\n  (subpath " ++ sbplString overlay ++
    ")\n  (subpath " ++ sbplString tmp ++ "))\n(deny network*)\n")

/-- A plan of a backend that is spawned directly, before the common fields are filled in. -/
def directPlan (input : PlanInput) (cwd program : Text) (args : List Text) : SandboxPlan where
  backend := input.backend
  program := program
  args := args
  cwd := cwd
  env := input.env
  containerName := none
  cleanup := none
  newProcessGroup := true
  buildSignal := .default
  expectsStartSentinel := false

def planSandboxExec (input : PlanInput) (cwd : Text) (inner : List Text) :
    Except SandboxError SandboxPlan := do
  let profile ← renderProfile input.overlayRoot input.syntheticTmp
  return directPlan input cwd "sandbox-exec" ("-p" :: profile :: inner)

def bwrapOptions (input : PlanInput) (cwd : Text) : List Text :=
  ["--unshare-all", "--die-with-parent", "--new-session", "--ro-bind", "/", "/", "--dev", "/dev",
    "--proc", "/proc", "--tmpfs", "/tmp", "--bind", input.overlayRoot, input.overlayRoot,
    "--chdir", cwd, "--clearenv"]

/-- Options that set a variable each, after the environment was cleared. -/
def setenvOptions (env : EnvMap) : List Text :=
  env.flatMap fun kv => [("--setenv" : Text), kv.1, kv.2]

def planBwrap (input : PlanInput) (cwd : Text) (inner : List Text) : SandboxPlan :=
  directPlan input cwd "bwrap"
    (bwrapOptions input cwd ++ setenvOptions input.env ++ ("--" : Text) :: inner)

def firejailOptions (input : PlanInput) : List Text :=
  let l := input.policy.limits
  ["--net=none", "--read-only=/", ("--read-write=" : Text) ++ input.overlayRoot,
    ("--whitelist=" : Text) ++ input.overlayRoot, "--caps.drop=all", "--nonewprivs",
    "--nogroups", ("--rlimit-as=" : Text) ++ ofNat l.addressSpaceBytes,
    ("--rlimit-cpu=" : Text) ++ ofNat l.cpuSeconds,
    ("--rlimit-nofile=" : Text) ++ ofNat l.openFiles,
    ("--rlimit-nproc=" : Text) ++ ofNat l.processes,
    ("--rlimit-fsize=" : Text) ++ ofNat l.fileSizeBytes]

def planFirejail (input : PlanInput) (cwd : Text) (inner : List Text) : SandboxPlan :=
  directPlan input cwd "firejail" (firejailOptions input ++ ("--" : Text) :: inner)

/-- The environment inside a container, where home and temporary files have places of their own. -/
def containerEnv (input : PlanInput) : EnvMap :=
  EnvMap.insert "TMPDIR" "/tmp"
    (EnvMap.insert "HOME" (input.overlayRoot ++ "/.jitgen-home") input.env)

/-- Options of a container engine up to the environment. -/
def engineOptions (input : PlanInput) (cwd user : Text) : List Text :=
  let l := input.policy.limits
  let overlay := input.overlayRoot
  ["run", "--rm", "--pull=never", "--name", ("jitgen-" : Text) ++ input.instance',
    "--network=none", "--read-only", "--tmpfs", "/tmp:rw,nosuid,nodev,size=64m", "--mount",
    ("type=bind,src=" : Text) ++ overlay ++ ",dst=" ++ overlay, "--workdir", cwd, "--cap-drop",
    "ALL", "--security-opt", "no-new-privileges", "--pids-limit", ofNat l.processes, "--memory",
    ofNat l.memoryBytes, "--memory-swap", ofNat l.memoryBytes, "--cpus", ofNat l.cpus, "--user",
    user]

/-- Options that set a variable each. -/
def containerEnvOptions (env : EnvMap) : List Text :=
  env.flatMap fun kv => [("-e" : Text), kv.1 ++ "=" ++ kv.2]

def planContainer (input : PlanInput) (cwd : Text) (inner : List Text) :
    Except SandboxError SandboxPlan :=
  let program : Text := if input.backend = .podman then "podman" else "docker"
  match input.policy.dockerImage with
  | none => .error .missingImage
  | some image =>
    if !isDigestPinned image then .error (.floatingImageTag image)
    else
      match input.runAs with
      | none => .error .missingContainerUser
      | some user =>
        if !isUidGid user then .error (.invalidRunAs user)
        else if input.overlayRoot.contains ',' then .error (.unsafeOverlayPath input.overlayRoot)
        else
          match inner with
          | [] => .error .emptyCommand
          | entrypoint :: rest =>
            let name := ("jitgen-" : Text) ++ input.instance'
            .ok
              { backend := input.backend
                program := program
                args := engineOptions input cwd user ++ containerEnvOptions (containerEnv input) ++
                  ("--entrypoint" : Text) :: entrypoint :: image :: rest
                cwd := cwd
                env := containerEnv input
                containerName := some name
                cleanup := some [program, "kill", "--signal=KILL", name]
                newProcessGroup := false
                buildSignal := .default
                expectsStartSentinel := false }

def planNetnsHelper (input : PlanInput) (cwd : Text) (inner : List Text) : SandboxPlan :=
  directPlan input cwd "unshare" ("--user" :: "--map-root-user" :: "--net" :: "--" :: inner)

def planLocal (input : PlanInput) (cwd : Text) (inner : List Text) : SandboxPlan :=
  directPlan input cwd (inner.headD []) inner.tail

def planFor (input : PlanInput) (cwd : Text) (inner : List Text) :
    Except SandboxError SandboxPlan :=
  match input.backend with
  | .sandboxExec => planSandboxExec input cwd inner
  | .bwrap => .ok (planBwrap input cwd inner)
  | .firejail => .ok (planFirejail input cwd inner)
  | .docker | .podman => planContainer input cwd inner
  | .netnsHelper => .ok (planNetnsHelper input cwd inner)
  | .constrainedLocal => .ok (planLocal input cwd inner)

/-- The plan of a request for the chosen backend. -/
def buildPlan (input : PlanInput) : Except SandboxError SandboxPlan := do
  validateInstance input.instance'
  let cwd ← validatedCwd input.overlayRoot input.req.cwdRel
  let inner ← innerArgv input.req input.policy
  if inner.isEmpty then throw .emptyCommand
  let inner := if input.backend.usesPreamble then withRlimitPreamble inner input.policy.limits
    else inner
  let plan ← planFor input cwd inner
  return { plan with
    buildSignal := input.req.buildSignal
    expectsStartSentinel := input.backend.usesPreamble }

end Jitgen
