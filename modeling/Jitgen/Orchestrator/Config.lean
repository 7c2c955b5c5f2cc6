import Jitgen.Core.Config
import Jitgen.Orchestrator.Error
import Jitgen.Orchestrator.Process

/-!
# Trusted-config resolution

A base configuration is overridden by environment variables, and those by command-line flags. The
run configuration takes mode and strategy from it unchanged.
-/

namespace Jitgen

open Text

/-- Command-line overrides; an absent one falls through. -/
structure TrustedFlags where
  mode : Option Mode
  strategy : Option Strategy
  sandboxBackend : Option SandboxBackend
  unsafeLocalExecution : Option Bool
  shellAllowed : Option Bool
  stateDir : Option Text
  maxTests : Option Nat
  realLlm : Option Bool
  envAllowlistExtra : Option (List Text)
  dockerImage : Option Text

def TrustedFlags.none : TrustedFlags :=
  ⟨.none, .none, .none, .none, .none, .none, .none, .none, .none, .none⟩

def parseStrategy (s : Text) : Option Strategy :=
  if s = "auto" then some .auto
  else if s = "harden" then some .harden
  else if s = "dodgy-diff" then some .dodgyDiff
  else if s = "intent-aware" then some .intentAware
  else none

def parseBackend (s : Text) : Option SandboxBackend :=
  if s = "auto" then some .auto
  else if s = "bwrap" then some .bwrap
  else if s = "firejail" then some .firejail
  else if s = "sandbox-exec" then some .sandboxExec
  else if s = "docker" then some .docker
  else if s = "podman" then some .podman
  else if s = "netns-helper" then some .netnsHelper
  else if s = "local" then some .local
  else none

def parseBool (s : Text) : Option Bool :=
  let s := toAsciiLower s
  if s ∈ [("1" : Text), "true", "yes", "on"] then some true
  else if s ∈ [("0" : Text), "false", "no", "off"] then some false
  else none

def parseU32 (s : Text) : Option Nat := parseUnsigned (2 ^ 32) s

def invalidEnv (var value : Text) : OrchestratorError :=
  .invalid var ("unrecognized value " ++ debugQuoted value)

/-- Override a field by a variable that must parse when it is set. -/
def overrideEnv {α : Type} (env : Text → Option Text) (var : Text) (parse : Text → Option α)
    (set : TrustedConfig → α → TrustedConfig) (cfg : TrustedConfig) :
    Except OrchestratorError TrustedConfig :=
  match env var with
  | none => .ok cfg
  | some v =>
    match parse v with
    | some a => .ok (set cfg a)
    | none => .error (invalidEnv var v)

def nonEmpty (s : Option Text) : Option Text := s.filter (!·.isEmpty)

def applyEnv (cfg : TrustedConfig) (env : Text → Option Text) :
    Except OrchestratorError TrustedConfig := do
  let cfg ← overrideEnv env "JITGEN_MODE" Mode.parse (fun c m => { c with mode := m }) cfg
  let cfg ← overrideEnv env "JITGEN_STRATEGY" parseStrategy
    (fun c s => { c with strategy := s }) cfg
  let cfg ← overrideEnv env "JITGEN_SANDBOX" parseBackend
    (fun c b => { c with sandboxBackend := b }) cfg
  let cfg ← overrideEnv env "JITGEN_UNSAFE_LOCAL_EXECUTION" parseBool
    (fun c b => { c with unsafeLocalExecution := b }) cfg
  let cfg ← overrideEnv env "JITGEN_SHELL_ALLOWED" parseBool
    (fun c b => { c with shellAllowed := b }) cfg
  let cfg ← overrideEnv env "JITGEN_REAL_LLM" parseBool
    (fun c b => { c with provider := { c.provider with realLlm := b } }) cfg
  let cfg ← overrideEnv env "JITGEN_MAX_TESTS" parseU32 (fun c n => { c with maxTests := n }) cfg
  let cfg := { cfg with stateDir := (nonEmpty (env "JITGEN_STATE_DIR")).or cfg.stateDir }
  return { cfg with dockerImage := (nonEmpty (env "JITGEN_DOCKER_IMAGE")).or cfg.dockerImage }

def applyFlags (cfg : TrustedConfig) (flags : TrustedFlags) : TrustedConfig :=
  { cfg with
    mode := flags.mode.getD cfg.mode
    strategy := flags.strategy.getD cfg.strategy
    sandboxBackend := flags.sandboxBackend.getD cfg.sandboxBackend
    unsafeLocalExecution := flags.unsafeLocalExecution.getD cfg.unsafeLocalExecution
    shellAllowed := flags.shellAllowed.getD cfg.shellAllowed
    provider := { cfg.provider with realLlm := flags.realLlm.getD cfg.provider.realLlm }
    maxTests := flags.maxTests.getD cfg.maxTests
    stateDir := (nonEmpty flags.stateDir).or cfg.stateDir
    envAllowlistExtra := flags.envAllowlistExtra.getD cfg.envAllowlistExtra
    dockerImage := (nonEmpty flags.dockerImage).or cfg.dockerImage }

/-- Resolve over a base, which is the parsed config file or the default. -/
def resolveTrusted (base : TrustedConfig) (env : Text → Option Text) (flags : TrustedFlags) :
    Except OrchestratorError TrustedConfig := do
  let cfg ← applyEnv base env
  return applyFlags cfg flags

/-- The run configuration of a trusted configuration. -/
def runConfigFrom (trusted : TrustedConfig) : RunConfig :=
  { RunConfig.default with
    mode := trusted.mode
    strategy := trusted.strategy
    realLlm := trusted.provider.realLlm
    strategyCfg := { RunConfig.default.strategyCfg with numCandidates := 1 } }

end Jitgen
