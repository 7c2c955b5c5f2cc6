import Jitgen.Llm.Real
import Jitgen.Report.Escape
import Jitgen.Sandbox.Session

/-!
# Environment report

What the host offers: tools, languages, the sandbox tier and the provider. The tier is taken from the
detection that a run makes, and the strict requirements decide by it whether a run could go ahead.
-/

namespace Jitgen

open Text

structure ToolStatus where
  name : Text
  available : Bool
  version : Option Text
  deriving DecidableEq

structure LanguageStatus where
  language : Text
  native : Bool
  note : Text
  deriving DecidableEq

structure DoctorReport where
  jitgenVersion : Text
  schemaVersion : Nat
  os : Text
  tools : List ToolStatus
  languages : List LanguageStatus
  sandboxTier : Text
  sandboxNote : Text
  containerRuntime : Option Text
  netnsHelper : Bool
  stateRoot : Text
  provider : Text

structure StrictRequirements where
  requireSandbox : Bool
  requireRealLlm : Bool
  unsafeLocalExecution : Bool

/-- Unmet requirements, and notes that do not count. -/
structure StrictVerdict where
  failures : List Text
  notes : List Text

namespace Doctor

def toolFieldCap : Nat := 120

/-- The tier of a host where nothing isolates. -/
def noTier : Text := "none"

def toolAvailable (tools : List ToolStatus) (name : Text) : Bool :=
  tools.any fun t => t.name == name && t.available

def prerequisitesOk (report : DoctorReport) : Bool := toolAvailable report.tools "git"

def weakTierNote : Text :=
  ("--require-sandbox: no isolating tier detected; passing because " : Text) ++
    "--unsafe-local-execution accepts the constrained-local tier. That tier has NO " ++
    "kernel-enforced network/file isolation and relies on the surrounding ephemeral " ++
    "container for it (ADR-0003) — it is NOT a real isolating sandbox. Only safe " ++
    "inside a throwaway, jitgen-owned container."

def netnsUpgradeNote : Text :=
  (" The netns helper (unshare) IS usable here, so the run will be " : Text) ++
    "auto-upgraded to the netns-local tier: network access is then " ++
    "kernel-denied, but filesystem confinement still relies on the " ++
    "surrounding container (ADR-0013)."

def noSandboxFailure : Text :=
  ("--require-sandbox: no isolating sandbox tier (os-sandbox/container) detected and " : Text) ++
    "--unsafe-local-execution not set — jitgen would refuse to execute tests " ++
    "(fail-closed). Install bubblewrap, run inside the jitgen container, or pass " ++
    "--unsafe-local-execution if this IS a throwaway container."

def noRealLlmFailure : Text :=
  ("--require-real-llm: no real LLM provider ready — needs --real-llm plus a trusted " : Text) ++
    "provider whose API-key env var is set (the default is the offline mock). See " ++
    "docs/ci.md → Real LLM providers."

/-- What the requirements on the sandbox come to. -/
def sandboxVerdict (report : DoctorReport) (req : StrictRequirements) : StrictVerdict :=
  if !req.requireSandbox then ⟨[], []⟩
  else if report.sandboxTier ≠ noTier then ⟨[], []⟩
  else if req.unsafeLocalExecution then
    ⟨[], [if report.netnsHelper then weakTierNote ++ netnsUpgradeNote else weakTierNote]⟩
  else ⟨[noSandboxFailure], []⟩

def strictVerdict (report : DoctorReport) (req : StrictRequirements) (realLlmReady : Bool) :
    StrictVerdict :=
  let v := sandboxVerdict report req
  if req.requireRealLlm && !realLlmReady then { v with failures := v.failures ++ [noRealLlmFailure] }
  else v

def providerIsMock (provider : ProviderConfig) : Bool :=
  !provider.realLlm || provider.kind = .mock

/-- The environment of the process. -/
abbrev ProcessEnv := Text → Except VarError Text

def keyPresent (env : ProcessEnv) (name : Text) : Bool :=
  match env name with
  | .ok v => !isBlank v
  | .error _ => false

def realLlmReady (env : ProcessEnv) (provider : ProviderConfig) : Bool :=
  if providerIsMock provider then false
  else
    match providerKeyEnv provider with
    | some name => keyPresent env name
    | none => true

def providerKindName : ProviderKind → Text
  | .anthropic => "anthropic"
  | .openAiCompatible => "openai-compatible"
  | .local => "local"
  | .mock => "mock"

def describeProvider (env : ProcessEnv) (provider : ProviderConfig) : Text :=
  if providerIsMock provider then
    ("mock (default; offline & deterministic — set a trusted provider and pass --real-llm " : Text) ++
      "for real generation)"
  else
    let key : Text := match providerKeyEnv provider with
      | some name =>
        if keyPresent env name then name ++ " is set"
        else name ++ " NOT set — export it before running"
      | none => "no API key required"
    providerKindName provider.kind ++ " (real_llm enabled; model: " ++
      provider.model.getD "(provider default)" ++ "; " ++ key ++ ")"

def deadRuntimeNote : Text :=
  ("FAIL-CLOSED: a container runtime client is installed but no isolating backend is " : Text) ++
    "usable — its daemon is not usable (unreachable, unauthorized, or misconfigured, " ++
    "e.g. DOCKER_HOST/permissions) or the client is not on a trusted launcher path, so " ++
    "untrusted tests cannot run in a container. Start/authorize the daemon, install an " ++
    "OS sandbox (bubblewrap), or pass --unsafe-local-execution if this IS a throwaway " ++
    "container (ADR-0003/0010)"

def noTierNote : Text :=
  ("FAIL-CLOSED: no OS sandbox or container available; untrusted execution is refused " : Text) ++
    "unless the trusted --unsafe-local-execution flag is passed (ADR-0003/0010)"

def netnsNote : Text :=
  (". A netns network-denying helper (unshare) IS usable: an " : Text) ++
    "--unsafe-local-execution run will be auto-upgraded to the netns-local tier — " ++
    "a kernel-enforced network cut, though filesystem confinement still relies on " ++
    "the surrounding container (ADR-0013)"

def containerRuntimeOf (detected : List Backend) : Option Text :=
  (detected.find? fun b => b.tier = .container).map Backend.id

/-- The tier, a note on it and the container runtime, by the backends found. -/
def classifySandbox (detected : List Backend) (containerClientPresent netnsHelper : Bool)
    (os : Text) : Text × Text × Option Text :=
  let none' : Text × Text :=
    let note := if containerClientPresent then deadRuntimeNote else noTierNote
    (noTier, if netnsHelper then note ++ netnsNote else note)
  let tierAndNote : Text × Text :=
    match detected.head? with
    | some b =>
      match b.tier with
      | .osSandbox =>
        ("os-sandbox", ("OS sandbox available (" : Text) ++ b.id ++ ") on " ++ os)
      | .container => ("container", ("using " : Text) ++ b.id ++ " container backend")
      | .constrainedLocal | .netnsLocal => none'
    | none => none'
  (tierAndNote.1, tierAndNote.2, containerRuntimeOf detected)

/-- What the report asks of the host: how a diagnostic command ended, with the first line it wrote,
and what the sandbox asks. -/
inductive DoctorOp where
  | tool (program : Text) (args : List Text)
  | host (o : HostOp)

abbrev DoctorAns : DoctorOp → Type
  | .tool _ _ => Bool × Option Text
  | .host o => HostAns o

abbrev DoctorProg (α : Type) := Prog DoctorAns α

def fromHost {α : Type} (p : HostProg α) : DoctorProg α := Prog.hoist .host p

def probeTool (program : Text) (args : List Text) : DoctorProg (Bool × Option Text) :=
  Prog.ask (DoctorOp.tool program args)

def tool (name program : Text) (args : List Text) : DoctorProg ToolStatus := do
  let r ← probeTool program args
  return ⟨name, r.1, if r.1 then r.2 else none⟩

/-- The tools with the commands that show their versions. -/
def toolCommands : List (Text × Text × List Text) :=
  [("git", "git", ["--version"]), ("rustc", "rustc", ["--version"]),
    ("cargo", "cargo", ["--version"]), ("bazel", "bazel", ["--version"]),
    ("node", "node", ["--version"]), ("npm", "npm", ["--version"]),
    ("pnpm", "pnpm", ["--version"]), ("yarn", "yarn", ["--version"]),
    ("bun", "bun", ["--version"]), ("python3", "python3", ["-I", "--version"]),
    ("pytest", "python3", ["-I", "-c",
      "import importlib.metadata as m,sys;sys.stdout.write(m.version('pytest'))"]),
    ("java", "java", ["-version"]), ("maven", "mvn", ["--version"]),
    ("gradle", "gradle", ["--version"]), ("docker", "docker", ["--version"]),
    ("podman", "podman", ["--version"])]

def runTools : List (Text × Text × List Text) → DoctorProg (List ToolStatus)
  | [] => return []
  | c :: cs => do
    let status ← tool c.1 c.2.1 c.2.2
    let rest ← runTools cs
    return status :: rest

def langNote (native : Bool) (container : Option Text) : Text :=
  if native then "native toolchain present"
  else
    match container with
    | some rt => ("no native toolchain; runs via " : Text) ++ rt ++ " container (ADR-0009)"
    | none => "no native toolchain and no container; e2e skipped on this host"

def languagesOf (tools : List ToolStatus) (container : Option Text) : List LanguageStatus :=
  let found := toolAvailable tools
  let python := found "python3" && found "pytest"
  let java := found "java" && (found "maven" || found "gradle")
  [⟨"rust", found "cargo", langNote (found "cargo") container⟩,
    ⟨"typescript", found "node", langNote (found "node") container⟩,
    ⟨"python", python, langNote python container⟩,
    ⟨"java", java, langNote java container⟩]

/-- The operating system counts by its kind and is shown by its name. -/
def runDoctor (os : HostOs) (osName version : Text) (schemaVersion : Nat)
    (stateRoot provider : Text) : DoctorProg DoctorReport := do
  let tools ← runTools toolCommands
  let detected ← fromHost (Detect.detect os)
  let netnsHelper ← fromHost (Detect.netnsHelperAvailable os)
  let clients := toolAvailable tools "docker" || toolAvailable tools "podman"
  let s := classifySandbox detected clients netnsHelper osName
  return ⟨version, schemaVersion, osName, tools, languagesOf tools s.2.2, s.1, s.2.1, s.2.2,
    netnsHelper, stateRoot, provider⟩

/-- Pad with blanks on the right. -/
def padTo (width : Nat) (s : Text) : Text := s ++ List.replicate (width - s.length) ' '

def toolRow (t : ToolStatus) : Text :=
  let mark : Text := if t.available then "ok  " else "MISS"
  ("  [" : Text) ++ mark ++ "] " ++ padTo 10 (sanitizeLine t.name toolFieldCap) ++ " " ++
    sanitizeLine (t.version.getD "-") toolFieldCap

def languageRow (l : LanguageStatus) : Text :=
  ("  " : Text) ++ padTo 11 l.language ++ " " ++
    padTo 10 (if l.native then "native" else "no-native") ++ " " ++ l.note

def heading (report : DoctorReport) : Text :=
  ("jitgen " : Text) ++ report.jitgenVersion ++ " (data-contract v" ++ ofNat report.schemaVersion ++
    ") — environment report\nOS: " ++ report.os ++ "\n\nTools:\n"

def runtimeRow : Option Text → Text
  | some rt => ("Container runtime: " : Text) ++ rt ++ "\n"
  | none => []

def gitWarning : Text := "\nWARNING: git not found — jitgen requires git to operate.\n"

def closing (report : DoctorReport) : Text :=
  ("\nLanguages (native toolchain; CI uses containers otherwise — ADR-0009):\n" : Text) ++
    report.languages.flatMap (fun l => languageRow l ++ ['\n']) ++
    "\nSandbox tier: " ++ report.sandboxTier ++ "\n  " ++ report.sandboxNote ++ "\n" ++
    runtimeRow report.containerRuntime ++ "State root: " ++ report.stateRoot ++
    "\nLLM provider: " ++ report.provider ++ "\n" ++
    if prerequisitesOk report then [] else gitWarning

def renderHuman (report : DoctorReport) : Text :=
  heading report ++ report.tools.flatMap (fun t => toolRow t ++ ['\n']) ++ closing report

end Doctor

end Jitgen
