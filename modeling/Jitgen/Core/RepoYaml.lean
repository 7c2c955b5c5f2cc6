import Jitgen.Core.Config

/-!
# The repository's own configuration

A `.jitgen.yaml` is untrusted: its security-relevant keys are ignored with a warning, and so is a
grammar that is not compiled in.
-/

namespace Jitgen

open Text

def maxRepoConfigBytes : Nat := 256 * 1024

/-- Keys that only the trusted configuration may set. -/
def forbiddenRepoKeys : List Text :=
  ["provider", "base_url", "base-url", "api_key_env", "api-key-env", "model", "real_llm", "real-llm",
    "shell", "shell_allowed", "env", "env_allowlist", "env-allowlist", "env_allowlist_extra",
    "env_set_extra", "env-set-extra", "sandbox", "sandbox_backend", "sandbox-backend", "state_dir",
    "state-dir", "unsafe_local_execution", "unsafe-local-execution", "mode", "strategy", "max_tests",
    "docker_image", "docker-image"]

def allowedGrammars : List Text := ["typescript", "tsx", "javascript", "java", "python", "rust"]

/-- Reading YAML: the keys of a mapping, and the fields of a configuration that a value has. -/
class RepoYaml where
  Value : Type
  parse : Text → Except Text Value
  keys : Value → List Text
  decode : Value → Except Text RepoConfig

def forbiddenKeyWarning (name : Text) : Text :=
  ("ignored security-relevant key '" : Text) ++ name ++
    "' in .jitgen.yaml (trusted-config only; ADR-0010)"

def grammarWarning (g : Text) : Text :=
  ("ignored non-allowlisted grammar '" : Text) ++ g ++
    "' in .jitgen.yaml (compiled-in allowlist only; ADR-0007)"

def yamlError (e : Text) : Text := ("yaml parse error: " : Text) ++ e

namespace RepoConfig

/-- Drop a grammar that is not compiled in. -/
def allowGrammar (cfg : RepoConfig) : RepoConfig × List Text :=
  match cfg.grammar with
  | some g =>
    if g ∈ allowedGrammars then (cfg, [])
    else ({ cfg with grammar := none }, [grammarWarning g])
  | none => (cfg, [])

variable [RepoYaml]

def parseYaml (yaml : Text) : Except Text (RepoConfig × List Text) :=
  if maxRepoConfigBytes < utf8Len yaml then
    .error ("invalid RepoConfig: `.jitgen.yaml` is " ++ ofNat (utf8Len yaml) ++
      " bytes; exceeds the " ++ ofNat maxRepoConfigBytes ++ "-byte cap")
  else do
    let value ← (RepoYaml.parse yaml).mapError yamlError
    let warnings := ((RepoYaml.keys value).filter (· ∈ forbiddenRepoKeys)).map forbiddenKeyWarning
    let cfg ← (RepoYaml.decode value).mapError yamlError
    let (cfg, dropped) := cfg.allowGrammar
    return (cfg, warnings ++ dropped)

end RepoConfig

end Jitgen
