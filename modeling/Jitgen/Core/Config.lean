import Jitgen.Core.Model

/-!
# Configuration
-/

namespace Jitgen

inductive ProviderKind where
  | mock
  | anthropic
  | openAiCompatible
  | local
  deriving DecidableEq

structure ProviderConfig where
  kind : ProviderKind
  baseUrl : Option Text
  apiKeyEnv : Option Text
  model : Option Text
  realLlm : Bool
  deriving DecidableEq

def ProviderConfig.default : ProviderConfig := ⟨.mock, none, none, none, false⟩

inductive SandboxBackend where
  | auto
  | bwrap
  | firejail
  | sandboxExec
  | docker
  | podman
  | netnsHelper
  | local
  deriving DecidableEq

structure TrustedConfig where
  mode : Mode
  strategy : Strategy
  provider : ProviderConfig
  shellAllowed : Bool
  envAllowlistExtra : List Text
  envSetExtra : List (Text × Text)
  sandboxBackend : SandboxBackend
  unsafeLocalExecution : Bool
  stateDir : Option Text
  maxTests : Nat
  dockerImage : Option Text
  deriving DecidableEq

def TrustedConfig.default : TrustedConfig where
  mode := .harden
  strategy := .auto
  provider := .default
  shellAllowed := false
  envAllowlistExtra := []
  envSetExtra := []
  sandboxBackend := .auto
  unsafeLocalExecution := false
  stateDir := none
  maxTests := 20
  dockerImage := none

/-- The untrusted `.jitgen.yaml` of a repository. -/
structure RepoConfig where
  id : Option Text
  extensions : List Text
  «include» : List Text
  exclude : List Text
  testArgv : List Text
  grammar : Option Text
  promptHints : List Text
  deriving DecidableEq

def RepoConfig.default : RepoConfig := ⟨none, [], [], [], [], none, []⟩

end Jitgen
