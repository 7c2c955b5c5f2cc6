import Jitgen.Llm.Real

/-!
# What leaves the machine

Every request of a provider goes to the endpoint that was checked, so the key and the prompt leave
over TLS or stay on this machine exactly when the endpoint is not a deceptive one.
-/

namespace Jitgen

open Fallible Text

/-- A request is sent to safe endpoints only. -/
def TlsEgress (e : Event LlmAns) : Prop :=
  ∀ url headers body, e.1 = .postJson url headers body → SafeEndpoint url

section

variable [JsonLibrary]

omit [JsonLibrary] in
private theorem readKey_calls (var : Text) : Calls TlsEgress (readKey var) :=
  calls_attempt fun _ _ _ _ h => by cases h

private theorem postFor_calls {name endpoint : Text} (headers : List (Text × Text)) (body : Text)
    (h : SafeEndpoint endpoint) : Calls TlsEgress (postFor name endpoint headers body) := by
  refine calls_bind (calls_attempt fun x url headers body hcall => ?_) fun _ outcome _ => ?_
  · cases hcall
    exact h
  · split_ifs
    · exact calls_pure _
    · exact calls_throw _

omit [JsonLibrary] in
private theorem checked_calls {α : Type} {endpoint : Text} {rest : Llm α}
    (h : validateEndpoint endpoint = .ok () → Calls TlsEgress rest) :
    Calls TlsEgress (Fallible.ofExcept
      ((validateEndpoint endpoint).mapError GenerationError.config) >>= fun _ => rest) := by
  refine calls_bind (calls_ofExcept _) fun _ _ hcheck => h ?_
  obtain ⟨-, hok⟩ := returns_ofExcept.mp hcheck
  cases hv : validateEndpoint endpoint with
  | ok u => rfl
  | error e =>
    rw [hv] at hok
    cases hok

omit [JsonLibrary] in
private theorem authorization_calls (p : OpenAiProvider) : Calls TlsEgress p.authorization := by
  unfold OpenAiProvider.authorization
  split
  · exact calls_pure _
  · exact calls_bind (readKey_calls _) fun _ _ _ => calls_pure _

private theorem postFor_fails (name endpoint : Text) (headers : List (Text × Text)) (body : Text) :
    (postFor name endpoint headers body).Runs [⟨.postJson endpoint headers body, .error []⟩]
      (.error (.provider [])) :=
  runs_bind.mpr (.inl ⟨_, rfl, runs_attempt.mpr ⟨_, rfl, rfl⟩⟩)

omit [JsonLibrary] in
private theorem readKey_returns (var : Text) :
    (readKey var).Returns [⟨.envVar var, .ok "k"⟩] ("k" : Text) :=
  returns_attempt.mpr ⟨.ok "k", rfl, rfl⟩

omit [JsonLibrary] in
private theorem authorization_returns (p : OpenAiProvider) :
    ∃ t hs, p.authorization.Returns t hs := by
  unfold OpenAiProvider.authorization
  split
  · exact ⟨[], [], returns_pure.mpr ⟨rfl, rfl⟩⟩
  · exact ⟨_, _, returns_bind.mpr ⟨_, _, _, rfl, readKey_returns _, returns_pure.mpr ⟨rfl, rfl⟩⟩⟩

private theorem not_calls_of_accepted {α β : Type} {name endpoint body : Text} {ready : Llm β}
    {headers : β → List (Text × Text)} {finish : Text → Llm α} {t : Trace LlmAns} {b : β}
    (hok : validateEndpoint endpoint = .ok ()) (hready : ready.Returns t b)
    (hbad : ¬ SafeEndpoint endpoint) :
    ¬ Calls TlsEgress (Fallible.ofExcept
      ((validateEndpoint endpoint).mapError GenerationError.config) >>= fun _ =>
        ready >>= fun b => postFor name endpoint (headers b) body >>= finish) := by
  intro hcalls
  have hrun : (ready >>= fun b => postFor name endpoint (headers b) body >>= finish).Runs
      (t ++ [⟨.postJson endpoint (headers b) body, .error []⟩]) (.error (.provider [])) :=
    runs_bind.mpr (.inr ⟨_, _, b, rfl, hready,
      runs_bind.mpr (.inl ⟨_, rfl, postFor_fails name endpoint (headers b) body⟩)⟩)
  have hchecked : (Fallible.ofExcept ((validateEndpoint endpoint).mapError
      GenerationError.config) : Llm Unit).Returns [] () :=
    returns_ofExcept.mpr ⟨rfl, by rw [hok]; rfl⟩
  have hall := hcalls _ _ (runs_bind.mpr (.inr ⟨[], _, (), rfl, hchecked, hrun⟩))
  exact hbad (hall ⟨.postJson endpoint (headers b) body, .error []⟩ (by simp) _ _ _ rfl)

private theorem anthropic_egress_iff (p : AnthropicProvider) (req : LlmRequest) :
    Calls TlsEgress (p.generate req) ↔ ¬ Deceptive p.endpoint := by
  rw [← accepted_unsafe_iff, not_and, not_not]
  constructor
  · intro hcalls hok
    by_contra hbad
    exact not_calls_of_accepted hok (readKey_returns p.keyEnv) hbad hcalls
  · intro hsafe
    apply checked_calls
    intro hok
    refine calls_bind (readKey_calls _) fun _ _ _ => ?_
    refine calls_bind (postFor_calls _ _ (hsafe hok)) fun _ _ _ => ?_
    exact calls_bind (calls_ofExcept _) fun _ _ _ => calls_pure _

private theorem openai_egress_iff (p : OpenAiProvider) (req : LlmRequest) :
    Calls TlsEgress (p.generate req) ↔ ∀ base model, p.baseUrl = some base →
      p.model = some model → ¬ Deceptive (OpenAiProvider.endpoint base) := by
  unfold OpenAiProvider.generate
  split
  · rename_i hbase
    rw [hbase]
    exact iff_of_true (calls_throw _) nofun
  · rename_i hmodel
    rw [hmodel]
    exact iff_of_true (calls_throw _) nofun
  · rename_i base model hbase hmodel
    rw [hbase, hmodel]
    simp only [Option.some.injEq, forall_eq', forall_apply_eq_imp_iff]
    rw [← accepted_unsafe_iff, not_and, not_not]
    constructor
    · intro hcalls hok
      obtain ⟨t, hs, hready⟩ := authorization_returns p
      by_contra hbad
      exact not_calls_of_accepted hok hready hbad hcalls
    · intro hsafe
      apply checked_calls
      intro hok
      refine calls_bind (authorization_calls p) fun _ _ _ => ?_
      refine calls_bind (postFor_calls _ _ (hsafe hok)) fun _ _ _ => ?_
      exact calls_bind (calls_ofExcept _) fun _ _ _ => calls_pure _

/-- Whatever is configured and requested, the providers send over TLS or to this machine exactly
when the endpoint they are configured for is not a deceptive one. -/
theorem tls_egress_iff (cfg : ProviderConfig) (req : LlmRequest) :
    (Calls TlsEgress ((AnthropicProvider.new cfg).generate req) ↔
      ¬ Deceptive (AnthropicProvider.new cfg).endpoint) ∧
    ∀ p ∈ [OpenAiProvider.newOpenai cfg, OpenAiProvider.newLocal cfg],
      (Calls TlsEgress (p.generate req) ↔ ∀ base model, cfg.baseUrl = some base →
        cfg.model = some model → ¬ Deceptive (OpenAiProvider.endpoint base)) := by
  constructor
  · exact anthropic_egress_iff _ req
  · intro p hp
    simp only [List.mem_cons, List.not_mem_nil, or_false] at hp
    rcases hp with rfl | rfl
    · exact openai_egress_iff _ req
    · exact openai_egress_iff _ req

end

/-- A JSON library that reads nothing and writes nothing. -/
abbrev silentJson : JsonLibrary where
  fromStr := fun _ => none
  readError := fun _ => []
  toText := fun _ => []

def shadowedConfig (kind : ProviderKind) : ProviderConfig where
  kind := kind
  baseUrl := some "http://evil.example?@localhost"
  apiKeyEnv := none
  model := some "m"
  realLlm := true

def emptyRequest : LlmRequest where
  prompt := ⟨[], []⟩
  mode := .catch
  strategy := .auto
  language := []
  symbol := none
  attempt := 0
  repairFeedback := none

/-- The query hides a loopback host behind an at sign, and the key goes to the host before it. -/
theorem shadowed_endpoint_leaks :
    letI := silentJson
    ¬ Calls TlsEgress
        ((AnthropicProvider.new (shadowedConfig .anthropic)).generate emptyRequest) ∧
      ¬ Calls TlsEgress
        ((OpenAiProvider.newOpenai (shadowedConfig .openAiCompatible)).generate emptyRequest) := by
  let _ := silentJson
  constructor
  · rw [anthropic_egress_iff, not_not, ← accepted_unsafe_iff]
    decide
  · rw [openai_egress_iff]
    intro h
    apply h "http://evil.example?@localhost" "m" rfl rfl
    rw [← accepted_unsafe_iff]
    decide

end Jitgen
