import Jitgen.Llm.JsonWriter
import Jitgen.Orchestrator.Doubles

/-!
# What a repair attempt tells the model

The repair loop puts the fenced failure of the last attempt into the request. The bodies of the real
providers are made of the prompt alone.
-/

namespace Jitgen

open Fallible Text

/-- The wire formats of the real providers. -/
inductive BodyFormat where
  | anthropic
  | openAi
  deriving DecidableEq

namespace BodyFormat

/-- The value that a provider writes into the body of a request. -/
def json (f : BodyFormat) (model : Text) (req : LlmRequest) : Json :=
  match f with
  | .anthropic => .object
    [("model", .string model),
      ("max_tokens", .number maxOutputTokens),
      ("system", .string req.prompt.system),
      ("messages", .array
        [.object [("role", .string "user"), ("content", .string req.prompt.user)]])]
  | .openAi => .object
    [("model", .string model),
      ("max_tokens", .number maxOutputTokens),
      ("messages", .array
        [.object [("role", .string "system"), ("content", .string req.prompt.system)],
          .object [("role", .string "user"), ("content", .string req.prompt.user)]])]

def body [JsonLibrary] (f : BodyFormat) (model : Text) (req : LlmRequest) : Text :=
  match f with
  | .anthropic => anthropicBody model req
  | .openAi => openaiBody model req

private theorem body_eq [JsonLibrary] (f : BodyFormat) (model : Text) (req : LlmRequest) :
    f.body model req = JsonLibrary.toText (f.json model req) := by
  cases f <;> rfl

private theorem json_skeleton (f : BodyFormat) (model : Text) (r r' : LlmRequest) :
    (f.json model r).skeleton = (f.json model r').skeleton := by
  cases f <;> rfl

private theorem json_inj {f : BodyFormat} {model : Text} {r r' : LlmRequest} :
    f.json model r = f.json model r' ↔
      r.prompt.system = r'.prompt.system ∧ r.prompt.user = r'.prompt.user := by
  cases f <;> simp [json]

private theorem body_inj [JsonLibrary] (hwrite : WritesStrings) {f : BodyFormat} {model : Text}
    {r r' : LlmRequest} : f.body model r = f.body model r' ↔
      r.prompt.system = r'.prompt.system ∧ r.prompt.user = r'.prompt.user := by
  rw [body_eq, body_eq, ← @json_inj f model]
  constructor
  · exact hwrite _ _ (f.json_skeleton model r r')
  · intro h
    rw [h]

/-- Requests that differ in the prompt or in the feedback have different bodies. -/
def Distinguishes [JsonLibrary] (f : BodyFormat) (model : Text) (r r' : LlmRequest) : Prop :=
  (r.prompt.system ≠ r'.prompt.system ∨ r.prompt.user ≠ r'.prompt.user ∨
    r.repairFeedback ≠ r'.repairFeedback) → f.body model r ≠ f.body model r'

/-- The body is another one than without the feedback. -/
def Carries [JsonLibrary] (f : BodyFormat) (model : Text) (req : LlmRequest) : Prop :=
  f.body model req ≠ f.body model { req with repairFeedback := none }

end BodyFormat

/-- The prompts are the same and the feedback is not. -/
def DifferInFeedbackAlone (r r' : LlmRequest) : Prop :=
  r.prompt.system = r'.prompt.system ∧ r.prompt.user = r'.prompt.user ∧
    r.repairFeedback ≠ r'.repairFeedback

private theorem distinguishes_iff [JsonLibrary] (hwrite : WritesStrings) (f : BodyFormat)
    (model : Text) (r r' : LlmRequest) :
    f.Distinguishes model r r' ↔ ¬ DifferInFeedbackAlone r r' := by
  unfold BodyFormat.Distinguishes DifferInFeedbackAlone
  rw [ne_eq (f.body model r), BodyFormat.body_inj hwrite]
  tauto

private theorem not_carries [JsonLibrary] (f : BodyFormat) (model : Text) (req : LlmRequest) :
    ¬ f.Carries model req := by
  cases f <;> exact not_not.mpr rfl

inductive RealProvider where
  | anthropic (p : AnthropicProvider)
  | openAi (p : OpenAiProvider)

namespace RealProvider

def format : RealProvider → BodyFormat
  | .anthropic _ => .anthropic
  | .openAi _ => .openAi

def model? : RealProvider → Option Text
  | .anthropic p => some p.model
  | .openAi p => p.model

variable [JsonLibrary]

def generate : RealProvider → LlmRequest → Llm LlmResponse
  | .anthropic p, req => p.generate req
  | .openAi p, req => p.generate req

/-- A posted body is that of the request, for the configured model. -/
def PostsBody (p : RealProvider) (req : LlmRequest) (e : Event LlmAns) : Prop :=
  ∀ url headers body, e.1 = .postJson url headers body →
    ∃ model, p.model? = some model ∧ body = p.format.body model req

private theorem readKey_postsBody (p : RealProvider) (req : LlmRequest) (var : Text) :
    Calls (p.PostsBody req) (readKey var) :=
  calls_attempt fun _ _ _ _ h => by cases h

private theorem postFor_postsBody {p : RealProvider} {req : LlmRequest} {model : Text}
    (hmodel : p.model? = some model) (name endpoint : Text) (headers : List (Text × Text)) :
    Calls (p.PostsBody req) (postFor name endpoint headers (p.format.body model req)) := by
  refine calls_bind (calls_attempt fun _ _ _ _ h => ?_) fun _ outcome _ => ?_
  · cases h
    exact ⟨model, hmodel, rfl⟩
  · split_ifs
    · exact calls_pure _
    · exact calls_throw _

private theorem generate_postsBody (p : RealProvider) (req : LlmRequest) :
    Calls (p.PostsBody req) (p.generate req) := by
  cases p with
  | anthropic a =>
    refine calls_bind (calls_ofExcept _) fun _ _ _ => ?_
    refine calls_bind (readKey_postsBody (.anthropic a) req _) fun _ _ _ => ?_
    have hmodel : (RealProvider.anthropic a).model? = some a.model := rfl
    refine calls_bind (postFor_postsBody hmodel _ _ _) fun _ _ _ => ?_
    exact calls_bind (calls_ofExcept _) fun _ _ _ => calls_pure _
  | openAi o =>
    show Calls _ (o.generate req)
    unfold OpenAiProvider.generate
    split
    · exact calls_throw _
    · exact calls_throw _
    · rename_i base model hbase hmodel
      have hheaders : Calls ((RealProvider.openAi o).PostsBody req) o.authorization := by
        unfold OpenAiProvider.authorization
        split
        · exact calls_pure _
        · exact calls_bind (readKey_postsBody (.openAi o) req _) fun _ _ _ => calls_pure _
      have hmodel' : (RealProvider.openAi o).model? = some model := hmodel
      refine calls_bind (calls_ofExcept _) fun _ _ _ => ?_
      refine calls_bind hheaders fun _ _ _ => ?_
      refine calls_bind (postFor_postsBody hmodel' _ _ _) fun _ _ _ => ?_
      exact calls_bind (calls_ofExcept _) fun _ _ _ => calls_pure _

end RealProvider

/-- The requests of a run. -/
def requests (t : Trace Ans) : List LlmRequest :=
  t.filterMap fun e => match e.1 with
    | .generate req => some req
    | _ => none

private theorem mem_requests {t : Trace Ans} {req : LlmRequest} :
    req ∈ requests t ↔ ∃ e ∈ t, e.1 = .generate req := by
  have hevent : ∀ e : Event Ans, (match e.1 with
      | .generate req => some req
      | _ => none) = some req ↔ e.1 = .generate req := by
    intro e
    cases e.1 <;> simp
  simp only [requests, List.mem_filterMap, hevent]

section

variable [WordChars]

/-- The template with a fenced failure as its feedback. -/
def IsRepair (template req : LlmRequest) : Prop :=
  ∃ attempt kind raw, req =
    { template with attempt := attempt, repairFeedback := some (fencedFeedback kind raw) }

/-- Requests of a loop are repairs of its template. -/
def AsksRepair (template : LlmRequest) (e : Event Ans) : Prop :=
  ∀ req, e.1 = .generate req → IsRepair template req

variable {template : LlmRequest} {initial : TestCandidate} {mode : Mode} {maxAttempts : Nat}

private theorem runCandidate_asks (c : TestCandidate) (v : Variant) :
    Calls (AsksRepair template) (runCandidate c v) :=
  calls_attempt fun _ _ h => by cases h

private theorem trial_asks (c : TestCandidate) : Calls (AsksRepair template) (trial c mode) := by
  cases mode with
  | harden => exact calls_bind (runCandidate_asks c _) fun _ _ _ => calls_pure _
  | «catch» =>
    exact calls_bind (runCandidate_asks c _) fun _ _ _ =>
      calls_bind (runCandidate_asks c _) fun _ _ _ => calls_pure _

private theorem trial_feedback {c : TestCandidate} {t : Trace Ans} {r : ClassifiedResult × Text}
    (h : (trial c mode).Returns t r) : ∃ kind raw, r.2 = fencedFeedback kind raw := by
  cases mode with
  | harden =>
    obtain ⟨head, -, rfl⟩ := returns_trial_harden.mp h
    exact ⟨_, _, rfl⟩
  | «catch» =>
    obtain ⟨base, head, -, rfl⟩ := returns_trial_catch.mp h
    exact ⟨_, _, rfl⟩

private theorem attemptCandidate_asks {attempt : Nat} {previous : TestCandidate} {feedback : Text}
    (h : attempt = 0 ∨ ∃ kind raw, feedback = fencedFeedback kind raw) :
    Calls (AsksRepair template) (attemptCandidate template initial attempt previous feedback) := by
  unfold attemptCandidate
  by_cases hzero : attempt = 0
  · rw [if_pos hzero]
    exact calls_pure _
  · rw [if_neg hzero]
    obtain ⟨kind, raw, hfeedback⟩ := h.resolve_left hzero
    refine calls_bind (calls_attempt fun _ req hreq => ?_) fun _ _ _ => calls_pure _
    cases hreq
    exact ⟨_, kind, raw, by rw [hfeedback]⟩

/-- From the second attempt on, the loop has the fenced failure of the last one. -/
private theorem repairFrom_asks {left : Nat} {previous : TestCandidate}
    {last : Option ClassifiedResult} {feedback : Text}
    (h : left = maxAttempts ∨ ∃ kind raw, feedback = fencedFeedback kind raw) :
    Calls (AsksRepair template)
      (repairFrom template initial mode maxAttempts left previous last feedback) := by
  induction left generalizing previous last feedback with
  | zero => exact calls_pure _
  | succ left ih =>
    have hattempt : maxAttempts - (left + 1) = 0 ∨ ∃ kind raw, feedback = fencedFeedback kind raw :=
      h.imp_left fun heq => by omega
    rw [repairFrom]
    apply calls_bind (attemptCandidate_asks hattempt)
    intro _ candidate _
    dsimp only
    split_ifs
    · exact calls_pure _
    · exact ih (.inr ⟨_, _, rfl⟩)
    · apply calls_bind (trial_asks candidate)
      intro _ tried htried
      split_ifs
      · exact calls_pure _
      · exact ih (.inr (trial_feedback htried))

private theorem repairLoop_asks :
    Calls (AsksRepair template) (repairLoop initial template mode maxAttempts) := by
  unfold repairLoop
  split_ifs
  · exact calls_throw _
  · exact repairFrom_asks (.inl rfl)

end

/-- Requests with different contents have different bodies exactly when they do not differ in the
feedback alone; and a run of the loop, whose requests all have the fenced failure of an attempt,
sends that to the model exactly when it makes no request. -/
theorem feedback_arrives_iff [WordChars] [JsonLibrary] (hwrite : WritesStrings) :
    (∀ (f : BodyFormat) model r r',
      f.Distinguishes model r r' ↔ ¬ DifferInFeedbackAlone r r') ∧
    (∀ (p : RealProvider) req, Calls (p.PostsBody req) (p.generate req)) ∧
    ∀ initial template mode maxAttempts t r,
      (repairLoop initial template mode maxAttempts).Runs t r →
        (∀ req ∈ requests t, IsRepair template req) ∧
        ∀ (f : BodyFormat) model,
          (∀ req ∈ requests t, f.Carries model req) ↔ requests t = [] := by
  refine ⟨distinguishes_iff hwrite, fun p => p.generate_postsBody, ?_⟩
  intro initial template mode maxAttempts t r hrun
  constructor
  · intro req hreq
    obtain ⟨e, he, hgenerate⟩ := mem_requests.mp hreq
    exact repairLoop_asks t r hrun e he req hgenerate
  · intro f model
    constructor
    · intro hcarries
      exact List.eq_nil_iff_forall_not_mem.mpr fun req hreq =>
        not_carries f model req (hcarries req hreq)
    · intro hnone req hreq
      rw [hnone] at hreq
      cases hreq

/-- The request for a repair of `template` after a failure. -/
def repairOf (template : LlmRequest) (feedback : Text) : LlmRequest :=
  { template with attempt := 1, repairFeedback := some feedback }

def plainTemplate : LlmRequest where
  prompt := ⟨"Write a test.", "fn f() \x7b\x7d"⟩
  mode := .harden
  strategy := .harden
  language := "rust"
  symbol := some "f"
  attempt := 0
  repairFeedback := none

/-- A repair request has the body of the first one. -/
theorem repair_body_repeats : ¬ ∀ [JsonLibrary] (f : BodyFormat) (model : Text) (r r' : LlmRequest),
    f.Distinguishes model r r' := by
  intro h
  let _ := compactJson
  exact h .anthropic "m" plainTemplate (repairOf plainTemplate "assertion failed")
    (.inr (.inr (by decide))) rfl

/-- With the compact writer, other prompts are told apart. -/
theorem other_prompt_distinguished :
    letI := compactJson
    BodyFormat.openAi.Distinguishes "m" plainTemplate
      { plainTemplate with prompt := ⟨"Write a test.", "fn g() \x7b\x7d"⟩ } := by
  let _ := asciiWords
  let _ := compactJson
  exact ((feedback_arrives_iff compactJson_writesStrings).1 _ _ _ _).mpr fun h =>
    absurd h.2.1 (by decide)

end Jitgen
