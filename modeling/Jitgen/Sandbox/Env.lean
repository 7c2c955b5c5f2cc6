import Jitgen.Framework.PathResolve
import Jitgen.Sandbox.Policy

/-!
# Environment of the sandbox

The environment of a child is built from nothing: a small baseline of the parent's variables, the
sandbox's own values, and the extras of trusted configuration that no rule refuses.
-/

namespace Jitgen

open Text

/-- Variables taken over from the parent. -/
def baselinePassthrough : List Text :=
  ["PATH", "LANG", "LC_ALL", "LC_CTYPE", "LC_NUMERIC", "LC_TIME", "LC_COLLATE", "LC_MONETARY",
    "LC_MESSAGES", "TZ"]

/-- Variables the sandbox sets itself. -/
def managed : List Text := ["HOME", "TMPDIR", "TERM"]

def denyPrefixes : List Text :=
  ["AWS_", "SSH_", "GH_", "GITHUB_", "GOOGLE_", "GCP_", "AZURE_", "NPM_", "PIP_", "DOCKER_",
    "VAULT_", "KUBERNETES_", "CARGO_REGISTRY", "LD_", "DYLD_"]

def denySubstrings : List Text :=
  ["SECRET", "TOKEN", "PASSWORD", "PASSWD", "CREDENTIAL", "APIKEY", "PRIVATE_KEY", "DSN", "WEBHOOK",
    "NETRC", "KUBECONFIG"]

def denySuffixes : List Text := ["_KEY", "_AUTH", "_URL", "_URI", "_PROXY"]

def denyExact : List Text :=
  ["SSH_AUTH_SOCK", "SSH_AGENT_PID", "GPG_AGENT_INFO", "DBUS_SESSION_BUS_ADDRESS"]

/-- Variables that make a tool run a program or source code. -/
def denyExecExact : List Text :=
  ["RUSTC", "RUSTC_WRAPPER", "RUSTC_WORKSPACE_WRAPPER", "CARGO", "CC", "CXX", "LD", "AR", "BASH_ENV",
    "ENV", "NODE_OPTIONS", "PYTHONSTARTUP", "PERL5OPT", "RUBYOPT", "GIT_SSH", "GIT_SSH_COMMAND",
    "GIT_EXTERNAL_DIFF", "GIT_PROXY_COMMAND", "GIT_PAGER", "GIT_EDITOR", "PAGER", "EDITOR", "VISUAL",
    "BROWSER", "SHELL"]

def denyExecSuffixes : List Text := ["_RUNNER", "_LINKER", "_WRAPPER"]

def toAsciiUpper (s : Text) : Text := s.map charToAsciiUpper

def isDenied (name : Text) : Bool :=
  let u := toAsciiUpper name
  denyExact.contains u || denyExecExact.contains u || denyPrefixes.any (u.startsWith ·) ||
    denySubstrings.any (hasSubstr u) || denySuffixes.any (u.endsWith ·) ||
    denyExecSuffixes.any (u.endsWith ·)

/-- The search path where filtering leaves nothing. -/
def fallbackPath : Text := "/usr/bin:/bin:/usr/sbin:/sbin"

/-- Whether the filter keeps an entry of a search path. -/
def keepsEntry (overlayRoot stateRoot entry : Text) : Bool :=
  !entry.isEmpty && UnixPath.isAbsolute entry &&
    (!UnixPath.startsWith entry overlayRoot && !UnixPath.startsWith entry stateRoot)

def filterPath (value overlayRoot stateRoot : Text) : Text :=
  let kept := (value.splitOn ':').filter (keepsEntry overlayRoot stateRoot)
  if kept.isEmpty then fallbackPath else join ":" kept

/-- Variables whose values are no paths. -/
def scalarValueAllowlist : List Text := ["CARGO_NET_OFFLINE"]

def pseudoRoots : List Text := ["/proc", "/sys", "/dev/fd"]

def componentIsSafeAbsolute (component : Text) : Bool :=
  UnixPath.isAbsolute component &&
    (UnixPath.components component).all (fun
      | .rootDir | .normal _ => true
      | _ => false) &&
    !pseudoRoots.any (UnixPath.startsWith component ·)

def valueIsUnsafe (name value : Text) : Bool :=
  if scalarValueAllowlist.contains (toAsciiUpper name) then false
  else !(value.splitOn ':').all componentIsSafeAbsolute

/-- Why a name is refused, if it is. -/
def extraRefusal (name : Text) : Option Text :=
  if isDenied name then some "matches a credential/socket/loader deny-pattern"
  else
    let upper := toAsciiUpper name
    if managed.contains upper || baselinePassthrough.contains upper then
      some "name is managed by the sandbox"
    else none

/-- Why a name is refused with a value, if it is. -/
def setRefusal (name value : Text) : Option Text :=
  match extraRefusal name with
  | some reason => some reason
  | none =>
    if value.any isControl then
      some (("value " : Text) ++ debugQuoted value ++
        " contains a control character (not allowed in a sandbox env value)")
    else if valueIsUnsafe name value then
      some (("value " : Text) ++ debugQuoted value ++
        " is not a safe absolute path (env_set_extra path values must be absolute, normalized, " ++
        "and outside /proc; a relative, `..`, empty, or pseudo-fs component resolves under the " ++
        "hostile overlay cwd)")
    else none

def ignoredWarning (list name reason : Text) : Text :=
  ("ignored " : Text) ++ list ++ " " ++ debugQuoted name ++ ": " ++ reason

/-- The warnings for all refusals of a policy, before there is an environment. -/
def extraRefusalWarnings (policy : ExecPolicy) : List Text :=
  let warnings := policy.envAllowlistExtra.foldl (fun warnings name =>
    match extraRefusal name with
    | some reason => warnings ++ [ignoredWarning "env_allowlist_extra" name reason]
    | none => warnings) []
  policy.envSetExtra.foldl (fun warnings kv =>
    match setRefusal kv.1 kv.2 with
    | some reason => warnings ++ [ignoredWarning "env_set_extra" kv.1 reason]
    | none => warnings) warnings

/-- Take over a variable of the baseline. -/
def passBaseline (parent : EnvMap) (overlayRoot stateRoot : Text) (env : EnvMap) (name : Text) :
    EnvMap :=
  if isDenied name then env
  else
    match parent.lookup name with
    | some value =>
      if name = "PATH" then EnvMap.insert "PATH" (filterPath value overlayRoot stateRoot) env
      else EnvMap.insert name value env
    | none => env

/-- Take over a variable that trusted configuration names. -/
def passExtra (parent : EnvMap) (r : EnvMap × List Text) (name : Text) : EnvMap × List Text :=
  match extraRefusal name with
  | some reason => (r.1, r.2 ++ [ignoredWarning "env_allowlist_extra" name reason])
  | none =>
    match parent.lookup name with
    | some value => (EnvMap.insert name value r.1, r.2)
    | none => r

/-- Set a variable as trusted configuration says. -/
def setExtra (r : EnvMap × List Text) (kv : Text × Text) : EnvMap × List Text :=
  match setRefusal kv.1 kv.2 with
  | some reason => (r.1, r.2 ++ [ignoredWarning "env_set_extra" kv.1 reason])
  | none => (EnvMap.insert kv.1 kv.2 r.1, r.2)

/-- The environment of a child, and a warning for each extra that was refused. -/
def buildEnv (parent : EnvMap) (policy : ExecPolicy) (home tmp overlayRoot stateRoot : Text) :
    EnvMap × List Text :=
  let env := baselinePassthrough.foldl (passBaseline parent overlayRoot stateRoot) []
  let env := EnvMap.insert "TERM" "dumb" (EnvMap.insert "TMPDIR" tmp (EnvMap.insert "HOME" home env))
  policy.envSetExtra.foldl setExtra (policy.envAllowlistExtra.foldl (passExtra parent) (env, []))

end Jitgen
