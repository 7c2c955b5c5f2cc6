import Jitgen.Core.Config
import Jitgen.Framework.Prog
import Jitgen.Llm.Candidate
import Jitgen.Llm.Http
import Jitgen.Llm.Json

/-!
# Real providers

Anthropic and the OpenAI-compatible servers. The endpoint is checked before the key is read and
before anything is sent; the environment variable and the transport are outside.
-/

namespace Jitgen

open Text

/-- The JSON library: the strict reader, how it reports a text it rejects, and the writer. -/
class JsonLibrary extends JsonText where
  readError : Text → Text
  toText : Json → Text

structure HttpOutcome where
  status : Nat
  body : Text
  deriving DecidableEq

inductive VarError where
  | notPresent
  | notUnicode
  deriving DecidableEq

inductive LlmOp where
  | envVar (name : Text)
  | postJson (url : Text) (headers : List (Text × Text)) (body : Text)
  deriving DecidableEq

abbrev LlmAns : LlmOp → Type
  | .envVar _ => Except VarError Text
  | .postJson _ _ _ => Except Text HttpOutcome

/-- Computations of a real provider. -/
abbrev Llm (α : Type) := Fallible GenerationError LlmAns α

def anthropicKeyEnv : Text := "ANTHROPIC_API_KEY"

def openaiKeyEnv : Text := "OPENAI_API_KEY"

def defaultKeyEnv : ProviderKind → Option Text
  | .anthropic => some anthropicKeyEnv
  | .openAiCompatible => some openaiKeyEnv
  | .local => none
  | .mock => none

/-- The variable that holds the key of a provider. -/
def providerKeyEnv (cfg : ProviderConfig) : Option Text :=
  cfg.apiKeyEnv.or (defaultKeyEnv cfg.kind)

def keyFromValue (envVar : Text) : Option Text → Except GenerationError Text
  | some v =>
    if isBlank v then .error (missing envVar) else .ok v
  | none => .error (missing envVar)
where
  missing (envVar : Text) : GenerationError :=
    .config (("API key env var `" : Text) ++ envVar ++
      "` is not set (or is empty); export it before running with --real-llm")

def keyFromVarResult (envVar : Text) : Except VarError Text → Except GenerationError Text
  | .ok v => keyFromValue envVar (some v)
  | .error .notPresent => keyFromValue envVar none
  | .error .notUnicode =>
    .error (.config (("API key env var `" : Text) ++ envVar ++
      "` is set but contains non-UTF-8 bytes; re-export it as valid UTF-8"))

def readKey (envVar : Text) : Llm Text :=
  Fallible.attempt (.envVar envVar) (id : GenerationError → _) (keyFromVarResult envVar)

def maxOutputTokens : Binary64 := .ofBits 0x40B0000000000000

def snippetCap : Nat := 256

/-- The first characters, with an ellipsis if there are more. -/
def snippet (s : Text) : Text :=
  if snippetCap < s.length then s.take snippetCap ++ ['…'] else s

def Json.at : Json → Nat → Option Json
  | array items, i => items[i]?
  | _, _ => none

def Json.asArray : Json → Option (List Json)
  | array items => some items
  | _ => none

/-- The provider's own error message. -/
def Json.errorMessage (v : Json) : Option Text :=
  ((v.get "error").bind (·.get "message")).bind Json.asStr

section

variable [JsonLibrary]

def httpErrorMessage (status : Nat) (body : Text) : Text :=
  let shown := match (JsonText.fromStr body).bind Json.errorMessage with
    | some msg => msg
    | none => body
  ("HTTP " : Text) ++ ofNat status ++ ": " ++ snippet shown

/-- A response body without a message of its own that something went wrong. -/
def parseResponse (name errorName body : Text) : Except GenerationError Json :=
  match JsonText.fromStr body with
  | none => .error (.provider (name ++ ": invalid JSON response: " ++ JsonLibrary.readError body))
  | some v =>
    match v.errorMessage with
    | some msg => .error (.provider (errorName ++ " API error: " ++ snippet msg))
    | none => .ok v

/-- Send one request and return the body of a successful answer. -/
def postFor (name endpoint : Text) (headers : List (Text × Text)) (body : Text) : Llm Text := do
  let outcome ← Fallible.attempt (.postJson endpoint headers body) GenerationError.provider id
  if 200 ≤ outcome.status ∧ outcome.status < 300 then
    return outcome.body
  else
    throw (.provider (name ++ " " ++ httpErrorMessage outcome.status outcome.body))

def anthropicVersion : Text := "2023-06-01"

def anthropicDefaultBase : Text := "https://api.anthropic.com"

def defaultAnthropicModel : Text := "claude-sonnet-4-6"

structure AnthropicProvider where
  baseUrl : Text
  model : Text
  keyEnv : Text
  deriving DecidableEq

omit [JsonLibrary] in
def AnthropicProvider.new (cfg : ProviderConfig) : AnthropicProvider where
  baseUrl := cfg.baseUrl.getD anthropicDefaultBase
  model := cfg.model.getD defaultAnthropicModel
  keyEnv := (providerKeyEnv cfg).getD anthropicKeyEnv

def AnthropicProvider.endpoint (p : AnthropicProvider) : Text :=
  p.baseUrl.rdropWhile (· == '/') ++ "/v1/messages"

def anthropicBody (model : Text) (req : LlmRequest) : Text :=
  JsonLibrary.toText (.object
    [("model", .string model),
      ("max_tokens", .number maxOutputTokens),
      ("system", .string req.prompt.system),
      ("messages", .array
        [.object [("role", .string "user"), ("content", .string req.prompt.user)]])])

/-- The text of the content blocks, joined. -/
def parseAnthropicResponse (body : Text) : Except GenerationError Text := do
  let v ← parseResponse "anthropic" "anthropic" body
  match (v.get "content").bind Json.asArray with
  | none => .error (.provider "anthropic: response missing `content` array")
  | some blocks =>
    let text := blocks.flatMap fun b =>
      if (b.get "type").bind Json.asStr = some ("text" : Text) then
        ((b.get "text").bind Json.asStr).getD []
      else []
    if text.isEmpty then .error (.provider "anthropic: response had no text content") else .ok text

def AnthropicProvider.generate (p : AnthropicProvider) (req : LlmRequest) : Llm LlmResponse := do
  Fallible.ofExcept ((validateEndpoint p.endpoint).mapError GenerationError.config)
  let key ← readKey p.keyEnv
  let body ← postFor "anthropic" p.endpoint
    [("x-api-key", key), ("anthropic-version", anthropicVersion)] (anthropicBody p.model req)
  let raw ← Fallible.ofExcept (parseAnthropicResponse body)
  return ⟨raw⟩

structure OpenAiProvider where
  baseUrl : Option Text
  model : Option Text
  keyEnv : Option Text
  name : Text
  deriving DecidableEq

def OpenAiProvider.build (cfg : ProviderConfig) (name : Text) : OpenAiProvider where
  baseUrl := cfg.baseUrl
  model := cfg.model
  keyEnv := providerKeyEnv cfg
  name := name

def OpenAiProvider.newOpenai (cfg : ProviderConfig) : OpenAiProvider :=
  .build cfg "openai-compatible"

def OpenAiProvider.newLocal (cfg : ProviderConfig) : OpenAiProvider := .build cfg "local"

def OpenAiProvider.endpoint (base : Text) : Text :=
  base.rdropWhile (· == '/') ++ "/chat/completions"

def openaiBody (model : Text) (req : LlmRequest) : Text :=
  JsonLibrary.toText (.object
    [("model", .string model),
      ("max_tokens", .number maxOutputTokens),
      ("messages", .array
        [.object [("role", .string "system"), ("content", .string req.prompt.system)],
          .object [("role", .string "user"), ("content", .string req.prompt.user)]])])

def parseOpenaiResponse (body : Text) : Except GenerationError Text := do
  let v ← parseResponse "openai" "provider" body
  let content := ((((v.get "choices").bind (·.at 0)).bind (·.get "message")).bind
    (·.get "content")).bind Json.asStr
  match content with
  | none => .error (.provider "openai: response missing choices[0].message.content")
  | some text =>
    if text.isEmpty then .error (.provider "openai: response had empty content") else .ok text

/-- The bearer header, when a key is configured. -/
def OpenAiProvider.authorization (p : OpenAiProvider) : Llm (List (Text × Text)) :=
  match p.keyEnv with
  | none => pure []
  | some var => do
    let key ← readKey var
    return [("authorization", ("Bearer " : Text) ++ key)]

def OpenAiProvider.generate (p : OpenAiProvider) (req : LlmRequest) : Llm LlmResponse :=
  match p.baseUrl, p.model with
  | none, _ => throw (.config (p.name ++ " provider requires `base_url` in trusted config"))
  | some _, none => throw (.config (p.name ++ " provider requires `model` in trusted config"))
  | some base, some model => do
    Fallible.ofExcept
      ((validateEndpoint (OpenAiProvider.endpoint base)).mapError GenerationError.config)
    let headers ← p.authorization
    let body ← postFor p.name (OpenAiProvider.endpoint base) headers (openaiBody model req)
    let raw ← Fallible.ofExcept (parseOpenaiResponse body)
    return ⟨raw⟩

end

end Jitgen
