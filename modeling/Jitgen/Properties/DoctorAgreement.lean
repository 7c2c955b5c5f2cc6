import Jitgen.Orchestrator.Doctor

/-!
# The environment report and the run

On a host that stays as it is, the reported tier is that of the backend a run is given, and the
requirement of a sandbox fails exactly where a run is refused.
-/

namespace Jitgen

open Text Doctor

section

variable {os : HostOs} {policy : SandboxPolicy} {host : (o : HostOp) → HostAns o}

/-- Whether the host's answers make a backend usable. -/
def usable (host : (o : HostOp) → HostAns o) (b : Backend) : Bool := (Detect.available b).eval host

private theorem eval_detectFrom (bs : List Backend) :
    (Detect.detectFrom bs).eval host = bs.filter (usable host) := by
  induction bs with
  | nil => rfl
  | cons b bs ih =>
    change ((Detect.available b).bind fun u => (Detect.detectFrom bs).bind fun rest =>
      Prog.pure (if u then b :: rest else rest)).eval host = _
    rw [Prog.eval_bind, Prog.eval_bind, ih, List.filter_cons]
    rfl

private theorem eval_netnsHelper :
    (Detect.netnsHelperAvailable os).eval host = (os = .linux && usable host .netnsHelper) := by
  unfold Detect.netnsHelperAvailable
  split
  · rename_i hos
    simp [hos, usable]
  · rename_i hos
    simp only [hos, decide_false, Bool.false_and]
    rfl

private theorem candidates_in_preference (os : HostOs) :
    Backend.autoPreference.filter ((Backend.osCandidates os).contains ·) =
      Backend.osCandidates os := by
  cases os <;> decide

private theorem find_autoPreference (os : HostOs) (u : Backend → Bool) :
    Backend.autoPreference.find? (((Backend.osCandidates os).filter u).contains ·) =
      ((Backend.osCandidates os).filter u).head? := by
  rw [List.head?_filter]
  conv_rhs => rw [← candidates_in_preference os]
  rw [List.find?_filter]
  congr 1
  funext b
  rw [Bool.eq_iff_iff]
  simp

private theorem tier_of_candidate {b : Backend} (hb : b ∈ Backend.osCandidates os) :
    b.tier = .osSandbox ∨ b.tier = .container := by
  cases os <;> revert b <;> decide

/-- What an unspecific request is given: the strongest usable backend, or what the opt-in allows. -/
def autoChoice (policy : SandboxPolicy) (strongest : Option Backend) (helper : Bool) :
    Except CapstoneError Backend :=
  match strongest with
  | some b => .ok b
  | none =>
    if policy.allowUnsafeLocal then .ok (if helper then .netnsHelper else .constrainedLocal)
    else .error .noIsolationAvailable

private theorem select_auto (hauto : policy.backend = .auto) {found : List Backend}
    (hfound : Backend.netnsHelper ∉ found) (helper : Bool) :
    select (if helper then found ++ [.netnsHelper] else found) policy =
      autoChoice policy (Backend.autoPreference.find? (found.contains ·)) helper := by
  have hpref : ∀ b ∈ Backend.autoPreference, b ≠ .netnsHelper := by decide
  have hfind : Backend.autoPreference.find?
      ((if helper then found ++ [.netnsHelper] else found).contains ·) =
        Backend.autoPreference.find? (found.contains ·) := by
    rw [← List.head?_filter, ← List.head?_filter]
    refine congrArg List.head? (List.filter_congr fun b hb => ?_)
    cases helper with
    | false => rfl
    | true => simp [hpref b hb]
  have hhelper : (if helper then found ++ [.netnsHelper] else found).contains
      Backend.netnsHelper = helper := by
    cases helper with
    | false => simpa using hfound
    | true => simp
  unfold select autoChoice
  simp only [hauto, hfind, hhelper]
  cases Backend.autoPreference.find? (found.contains ·) with
  | some b => rfl
  | none =>
    cases policy.allowUnsafeLocal with
    | false => rfl
    | true => cases helper <;> rfl

private theorem eval_detectAndSelect :
    (Sandbox.detectAndSelect os policy).eval host =
      Sandbox.new (if (policy.allowUnsafeLocal || policy.backend = .netnsHelper) &&
          (os = .linux && usable host .netnsHelper)
        then (Backend.osCandidates os).filter (usable host) ++ [.netnsHelper]
        else (Backend.osCandidates os).filter (usable host)) policy := by
  have hhelper : (if policy.allowUnsafeLocal || policy.backend = .netnsHelper then
      Detect.netnsHelperAvailable os else pure false : HostProg Bool).eval host =
      ((policy.allowUnsafeLocal || policy.backend = .netnsHelper) &&
        (os = .linux && usable host .netnsHelper)) := by
    cases (policy.allowUnsafeLocal || policy.backend = .netnsHelper) with
    | true => rw [if_pos rfl, eval_netnsHelper, Bool.true_and]
    | false =>
      rw [if_neg (by decide), Bool.false_and]
      rfl
  unfold Sandbox.detectAndSelect Detect.detect
  rw [Fallible.eval_bind, Fallible.eval_lift, Except.bind, Fallible.eval_bind, Fallible.eval_lift,
    Except.bind, Fallible.eval_ofExcept, hhelper, eval_detectFrom]

private theorem eval_choice (hauto : policy.backend = .auto) :
    ((Sandbox.detectAndSelect os policy).eval host).map Sandbox.backend =
      autoChoice policy ((Backend.osCandidates os).filter (usable host)).head?
        (os = .linux && usable host .netnsHelper) := by
  have hnot : Backend.netnsHelper ∉ (Backend.osCandidates os).filter (usable host) := by
    intro hmem
    rcases tier_of_candidate (List.mem_of_mem_filter hmem) with h | h <;> cases h
  have hnew : ∀ available, (Sandbox.new available policy).map Sandbox.backend =
      select available policy := by
    intro available
    unfold Sandbox.new
    cases select available policy <;> rfl
  rw [eval_detectAndSelect, hnew, select_auto hauto hnot, find_autoPreference]
  unfold autoChoice
  cases ((Backend.osCandidates os).filter (usable host)).head? with
  | some b => rfl
  | none =>
    cases policy.allowUnsafeLocal with
    | false => rfl
    | true => rw [Bool.true_or, Bool.true_and]

section

variable {answers : (o : DoctorOp) → DoctorAns o} {osName version stateRoot provider : Text} {n : Nat}

/-- The report of a host that stays as it is. -/
def reportOf (os : HostOs) (answers : (o : DoctorOp) → DoctorAns o) (osName version : Text) (n : Nat)
    (stateRoot provider : Text) : DoctorReport :=
  (runDoctor os osName version n stateRoot provider).eval answers

def tierName : Tier → Text
  | .osSandbox => "os-sandbox"
  | .container => "container"
  | .netnsLocal | .constrainedLocal => noTier

private theorem classify_tier (found : List Backend) (clients helper : Bool) (name : Text) :
    (classifySandbox found clients helper name).1 =
      (found.head?.map fun b => tierName b.tier).getD noTier := by
  cases found with
  | nil => rfl
  | cons b bs => cases b <;> rfl

theorem reportOf_eq :
    let tools := (runTools toolCommands).eval answers
    let found := (Backend.osCandidates os).filter (usable fun o => answers (.host o))
    let helper := os = .linux && usable (fun o => answers (.host o)) .netnsHelper
    let s := classifySandbox found (toolAvailable tools "docker" || toolAvailable tools "podman")
      helper osName
    reportOf os answers osName version n stateRoot provider =
      ⟨version, n, osName, tools, languagesOf tools s.2.2, s.1, s.2.1, s.2.2, helper, stateRoot,
        provider⟩ := by
  unfold reportOf runDoctor fromHost
  rw [Prog.eval_do, Prog.eval_do, Prog.eval_do, Prog.eval_hoist, Prog.eval_hoist, Detect.detect,
    eval_detectFrom, eval_netnsHelper]
  rfl

private theorem verdict_failures {report : DoctorReport} {req : StrictRequirements} (ready : Bool)
    (hreq : req.requireSandbox = true) :
    noSandboxFailure ∈ (strictVerdict report req ready).failures ↔
      report.sandboxTier = noTier ∧ req.unsafeLocalExecution = false := by
  have hne : noSandboxFailure ≠ noRealLlmFailure := by decide +kernel
  have hsandbox : noSandboxFailure ∈ (sandboxVerdict report req).failures ↔
      report.sandboxTier = noTier ∧ req.unsafeLocalExecution = false := by
    unfold sandboxVerdict
    rw [hreq]
    by_cases htier : report.sandboxTier = noTier
    · cases req.unsafeLocalExecution <;> simp [htier]
    · simp [htier]
  unfold strictVerdict
  dsimp only
  split
  · simp [hne, hsandbox]
  · exact hsandbox

private theorem verdict_notes {report : DoctorReport} {req : StrictRequirements} (ready : Bool)
    (hreq : req.requireSandbox = true) :
    (strictVerdict report req ready).notes =
      if report.sandboxTier = noTier ∧ req.unsafeLocalExecution = true then
        [if report.netnsHelper then weakTierNote ++ netnsUpgradeNote else weakTierNote]
      else [] := by
  have hsandbox : (sandboxVerdict report req).notes =
      if report.sandboxTier = noTier ∧ req.unsafeLocalExecution = true then
        [if report.netnsHelper then weakTierNote ++ netnsUpgradeNote else weakTierNote]
      else [] := by
    unfold sandboxVerdict
    rw [hreq]
    by_cases htier : report.sandboxTier = noTier
    · cases req.unsafeLocalExecution <;> simp [htier]
    · simp [htier]
  rw [← hsandbox]
  unfold strictVerdict
  dsimp only
  split <;> rfl

/-- What a passing requirement of a sandbox says of the backend a run is given. -/
def expectedNotes : Backend → List Text
  | .constrainedLocal => [weakTierNote]
  | .netnsHelper => [weakTierNote ++ netnsUpgradeNote]
  | _ => []

/-- On a host that stays as it is, the requirement of a sandbox fails exactly where a run is refused
for want of one; else the report shows the tier of the backend the run is given, and a note says so
where that tier does not isolate. -/
theorem doctor_agrees (hauto : policy.backend = .auto) {req : StrictRequirements}
    (hreq : req.requireSandbox = true) (hopt : req.unsafeLocalExecution = policy.allowUnsafeLocal)
    (ready : Bool) :
    let report := reportOf os answers osName version n stateRoot provider
    let verdict := strictVerdict report req ready
    let chosen := (Sandbox.detectAndSelect os policy).eval fun o => answers (.host o)
    (noSandboxFailure ∈ verdict.failures ↔ chosen = .error .noIsolationAvailable) ∧
    (∀ e, chosen = .error e → noSandboxFailure ∈ verdict.failures) ∧
    ∀ s, chosen = .ok s → report.sandboxTier = tierName s.backend.tier ∧
      verdict.notes = expectedNotes s.backend := by
  intro report verdict chosen
  have hchoice : chosen.map Sandbox.backend = autoChoice policy
      ((Backend.osCandidates os).filter (usable fun o => answers (.host o))).head?
        (os = .linux && usable (fun o => answers (.host o)) .netnsHelper) := eval_choice hauto
  have htier : report.sandboxTier =
      (((Backend.osCandidates os).filter (usable fun o => answers (.host o))).head?.map
        fun b => tierName b.tier).getD noTier := by
    rw [← classify_tier]
    exact congrArg DoctorReport.sandboxTier reportOf_eq
  have hhelper : report.netnsHelper =
      (os = .linux && usable (fun o => answers (.host o)) .netnsHelper) :=
    congrArg DoctorReport.netnsHelper reportOf_eq
  have hfailures := @verdict_failures report req ready hreq
  have hnotes := @verdict_notes report req ready hreq
  rw [hopt] at hfailures hnotes
  generalize hstrongest :
    ((Backend.osCandidates os).filter (usable fun o => answers (.host o))).head? = strongest at *
  generalize (os = .linux && usable (fun o => answers (.host o)) .netnsHelper) = helper at *
  have hbackend : ∀ s, chosen = .ok s →
      autoChoice policy strongest helper = .ok s.backend := by
    intro s hs
    rw [← hchoice, hs]
    rfl
  have hrefused : ∀ e, chosen = .error e → autoChoice policy strongest helper = .error e := by
    intro e he
    rw [← hchoice, he]
    rfl
  cases strongest with
  | some b =>
    have hb : b.tier = .osSandbox ∨ b.tier = .container :=
      tier_of_candidate (List.mem_of_mem_filter (List.mem_of_head? hstrongest))
    have hname : report.sandboxTier = tierName b.tier := htier
    have hsome : report.sandboxTier ≠ noTier := by
      rw [hname]
      rcases hb with hb | hb <;> rw [hb] <;> decide
    refine ⟨?_, fun e he => ?_, fun s hs => ?_⟩
    · rw [hfailures]
      refine ⟨fun h => absurd h.1 hsome, fun he => ?_⟩
      cases hrefused _ he
    · cases hrefused e he
    · cases hbackend s hs
      refine ⟨hname, ?_⟩
      rw [hnotes, if_neg fun h => hsome h.1]
      generalize s.backend = b at hb
      rcases hb with hb | hb <;> cases b <;> first | rfl | cases hb
  | none =>
    have hnone : report.sandboxTier = noTier := htier
    cases hallow : policy.allowUnsafeLocal with
    | false =>
      have hnever : autoChoice policy none helper = .error .noIsolationAvailable := by
        rw [autoChoice, hallow]
        rfl
      rw [hallow] at hfailures
      have hfails := hfailures.mpr ⟨hnone, rfl⟩
      refine ⟨⟨fun _ => ?_, fun _ => hfails⟩, fun _ _ => hfails, fun s hs => ?_⟩
      · cases hc : chosen with
        | error e =>
          cases hnever.symm.trans (hrefused e hc)
          rfl
        | ok s => cases hnever.symm.trans (hbackend s hc)
      · cases hnever.symm.trans (hbackend s hs)
    | true =>
      have halways : autoChoice policy none helper =
          .ok (if helper then .netnsHelper else .constrainedLocal) := by
        rw [autoChoice, hallow]
        rfl
      rw [hallow] at hfailures hnotes
      refine ⟨?_, fun e he => ?_, fun s hs => ?_⟩
      · rw [hfailures]
        refine ⟨fun h => absurd h.2 (by decide), fun he => ?_⟩
        cases halways.symm.trans (hrefused _ he)
      · cases halways.symm.trans (hrefused e he)
      · have hs' := Except.ok.inj (halways.symm.trans (hbackend s hs))
        have hboth : report.sandboxTier = noTier ∧ true = true := ⟨hnone, rfl⟩
        rw [hnotes, if_pos hboth, hhelper, hnone, ← hs']
        cases helper with
        | true => exact ⟨rfl, rfl⟩
        | false => exact ⟨rfl, rfl⟩

end

end

def helperEntries : List (Location × FsEntry) :=
  [([], .dir), (["usr"], .dir), (["usr", "bin"], .dir), (["usr", "bin", "unshare"], .file [])]

private theorem helperEntries_root : helperEntries.lookup [] = some .dir := by decide +kernel

private theorem helperEntries_below : ∀ x ∈ helperEntries, x.1 = [] ∨
    helperEntries.lookup x.1.dropLast = some .dir ∧ (x.1.getLastD [] ∉ [[], ("." : Text), ".."] ∧
      (x.1.getLastD []).all fun c => c ≠ '/' ∧ c ≠ '\x00') := by
  decide +kernel

def helperAnswers : (o : HostOp) → HostAns o
  | .launcherHost =>
    ⟨.ofList helperEntries helperEntries_root helperEntries_below, fun _ => 0o755, fun _ => false,
      [], []⟩
  | .listen => none
  | .probe _ _ _ => ⟨true, [], []⟩
  | .canonicalize _ => none
  | .symlinkMetadata _ => .unreadable
  | .createDir _ => false
  | .processEnv => []
  | .launch _ => .notSpawned

def bareAnswers : (o : DoctorOp) → DoctorAns o
  | .tool _ _ => (false, none)
  | .host o => helperAnswers o

def optedIn : SandboxPolicy := { SandboxPolicy.fromTrusted .default with allowUnsafeLocal := true }

theorem bareHost_agrees :
    (strictVerdict (reportOf .linux bareAnswers "linux" "0.1.0" 1 "/state" "mock")
      ⟨true, false, true⟩ false).notes = [weakTierNote ++ netnsUpgradeNote] := by
  have hchosen : (Sandbox.detectAndSelect .linux optedIn).eval helperAnswers =
      .ok ⟨.netnsHelper, optedIn, extraRefusalWarnings optedIn.toExecPolicy⟩ := rfl
  have hagrees := @doctor_agrees .linux optedIn bareAnswers "linux" "0.1.0" "/state" "mock" 1 rfl
    ⟨true, false, true⟩ rfl rfl false
  exact (hagrees.2.2 _ hchosen).2

section

variable {env : ProcessEnv} {provider : ProviderConfig}

private theorem keyPresent_iff (name : Text) :
    keyPresent env name = true ↔ ∃ key, keyFromVarResult name (env name) = .ok key := by
  unfold keyPresent keyFromVarResult keyFromValue
  cases env name with
  | ok v =>
    cases hv : isBlank v with
    | true => simp [hv]
    | false => simp [hv]
  | error e => cases e <;> simp

/-- A provider that is not the mock. -/
inductive ConfiguredProvider where
  | anthropic (p : AnthropicProvider)
  | openai (p : OpenAiProvider)

/-- What a configuration makes; `none` is the mock. -/
def makeProvider (provider : ProviderConfig) : Option ConfiguredProvider :=
  if providerIsMock provider then none
  else
    match provider.kind with
    | .anthropic => some (.anthropic (.new provider))
    | .openAiCompatible => some (.openai (.newOpenai provider))
    | .local => some (.openai (.newLocal provider))
    | .mock => none

def ConfiguredProvider.keyEnv : ConfiguredProvider → Option Text
  | .anthropic p => some p.keyEnv
  | .openai p => p.keyEnv

private theorem keyEnv_makeProvider {p : ConfiguredProvider}
    (hmade : makeProvider provider = some p) :
    providerIsMock provider = false ∧ p.keyEnv = providerKeyEnv provider := by
  unfold makeProvider at hmade
  split at hmade
  · cases hmade
  · rename_i hmock
    refine ⟨by simpa using hmock, ?_⟩
    cases hkind : provider.kind <;> rw [hkind] at hmade <;> cases hmade
    · simp [ConfiguredProvider.keyEnv, AnthropicProvider.new, providerKeyEnv, defaultKeyEnv, hkind,
        Option.or_some]
    · rfl
    · rfl

private theorem realLlmReady_eq (hmock : providerIsMock provider = false) :
    realLlmReady env provider = (providerKeyEnv provider).all (keyPresent env) := by
  unfold realLlmReady
  rw [hmock]
  cases providerKeyEnv provider <;> rfl

/-- The variables are answered as they stand in the environment. -/
def AnsweredBy (env : ProcessEnv) (t : Trace LlmAns) : Prop :=
  ∀ name x, (⟨.envVar name, x⟩ : Event LlmAns) ∈ t → x = env name

/-- What reading a key comes to: no other call, and an error without a key. -/
structure AsksFor {α : Type} (key : Option Text) (p : Llm α) : Prop where
  only : ∀ t r, p.Runs t r → ∀ e ∈ t, ∃ name x, key = some name ∧ e = ⟨.envVar name, x⟩
  fails : ∀ t r, p.Runs t r → ∀ name x, key = some name → ⟨.envVar name, x⟩ ∈ t →
    (∀ k, keyFromVarResult name x ≠ .ok k) → ∃ e, r = .error e
  asks : ∀ t r, p.Runs t r → ∀ name, key = some name → ∃ x, ⟨.envVar name, x⟩ ∈ t

private theorem asksFor_readKey (name : Text) : AsksFor (some name) (readKey name) where
  only t r hr e he := by
    obtain ⟨x, rfl, -⟩ := Fallible.runs_attempt.mp hr
    exact ⟨name, x, rfl, List.mem_singleton.mp he⟩
  fails t r hr n x hn hx hnone := by
    obtain ⟨x', rfl, rfl⟩ := Fallible.runs_attempt.mp hr
    cases hn
    cases List.mem_singleton.mp hx
    cases hkey : keyFromVarResult name x with
    | ok k => exact absurd hkey (hnone k)
    | error e => exact ⟨e, rfl⟩
  asks t r hr n hn := by
    obtain ⟨x, rfl, -⟩ := Fallible.runs_attempt.mp hr
    cases hn
    exact ⟨x, List.mem_singleton.mpr rfl⟩

theorem AsksFor.map {α β : Type} {key : Option Text} {p : Llm α} (hp : AsksFor key p) (f : α → β) :
    AsksFor key (p >>= fun a => pure (f a)) := by
  have hsame : ∀ t r, (p >>= fun a => pure (f a) : Llm β).Runs t r →
      ∃ r', p.Runs t r' ∧ r = r'.map f := by
    intro t r hr
    rcases Fallible.runs_bind.mp hr with ⟨e, rfl, hfail⟩ | ⟨t₁, _, a, rfl, hok, rfl, rfl⟩
    · exact ⟨_, hfail, rfl⟩
    · rw [List.append_nil]
      exact ⟨_, hok, rfl⟩
  constructor
  · intro t r hr
    obtain ⟨r', hr', -⟩ := hsame t r hr
    exact hp.only t r' hr'
  · intro t r hr name x hname hx hnone
    obtain ⟨r', hr', rfl⟩ := hsame t r hr
    obtain ⟨e, rfl⟩ := hp.fails t r' hr' name x hname hx hnone
    exact ⟨e, rfl⟩
  · intro t r hr
    obtain ⟨r', hr', -⟩ := hsame t r hr
    exact hp.asks t r' hr'

private theorem asksFor_authorization (p : OpenAiProvider) : AsksFor p.keyEnv p.authorization := by
  unfold OpenAiProvider.authorization
  cases hkey : p.keyEnv with
  | none =>
    constructor
    · rintro t r ⟨rfl, -⟩ e he
      cases he
    · intro _ _ _ name x hname
      cases hname
    · intro _ _ _ name hname
      cases hname
  | some var => exact (asksFor_readKey var).map _

/-- What readiness means for the runs of a program. -/
structure KeyDecides {α : Type} (env : ProcessEnv) (key : Option Text) (t : Trace LlmAns)
    (r : Except GenerationError α) : Prop where
  resolves : key.all (keyPresent env) = true → ∀ name x, ⟨.envVar name, x⟩ ∈ t →
    ∃ k, keyFromVarResult name x = .ok k
  stops : key.all (keyPresent env) = false → (∃ e, r = .error e) ∧
    ∀ e ∈ t, ∃ name x, e = ⟨.envVar name, x⟩

private theorem keyDecides_ready {β : Type} {key : Option Text} {ready : Llm β}
    (hready : AsksFor key ready) {t : Trace LlmAns} {r : Except GenerationError β}
    (hr : ready.Runs t r) (henv : AnsweredBy env t) :
    (key.all (keyPresent env) = true → ∀ name x, ⟨.envVar name, x⟩ ∈ t →
      ∃ k, keyFromVarResult name x = .ok k) ∧
    (key.all (keyPresent env) = false → ∃ e, r = .error e) := by
  constructor
  · intro hpresent name x hx
    obtain ⟨name', x', hname, heq⟩ := hready.only t r hr _ hx
    cases heq
    rw [hname] at hpresent
    rw [henv name x hx]
    exact (keyPresent_iff name).mp hpresent
  · intro habsent
    cases hname : key with
    | none =>
      rw [hname] at habsent
      cases habsent
    | some name =>
      obtain ⟨x, hx⟩ := hready.asks t r hr name hname
      refine hready.fails t r hr name x hname hx fun k hk => ?_
      rw [henv name x hx] at hk
      rw [hname] at habsent
      have hpresent := (@keyPresent_iff env name).mpr ⟨k, hk⟩
      simp [hpresent] at habsent

private theorem keyDecides_checked {α β : Type} {endpoint : Text} {key : Option Text}
    {ready : Llm β} {rest : β → Llm α} (hready : AsksFor key ready)
    (hrest : ∀ b, Fallible.Calls (fun e => ∀ name, e.1 ≠ .envVar name) (rest b))
    {t : Trace LlmAns} {r : Except GenerationError α}
    (hr : (Fallible.ofExcept ((validateEndpoint endpoint).mapError GenerationError.config) >>=
      fun _ => ready >>= rest).Runs t r) (henv : AnsweredBy env t) : KeyDecides env key t r := by
  rcases Fallible.runs_bind.mp hr with ⟨e, rfl, rfl, -⟩ | ⟨t₀, t₁, _, rfl, ⟨rfl, -⟩, hchecked⟩
  · exact ⟨fun _ _ _ h => (by cases h), fun _ => ⟨⟨e, rfl⟩, fun _ h => (by cases h)⟩⟩
  · rw [List.nil_append] at henv ⊢
    rcases Fallible.runs_bind.mp hchecked with ⟨e, rfl, hkey⟩ | ⟨t₂, t₃, b, rfl, hkey, hsend⟩
    · obtain ⟨hresolves, -⟩ := keyDecides_ready hready hkey henv
      refine ⟨hresolves, fun _ => ⟨⟨e, rfl⟩, fun ev hev => ?_⟩⟩
      obtain ⟨name, x, -, heq⟩ := hready.only t₁ _ hkey ev hev
      exact ⟨name, x, heq⟩
    · obtain ⟨hresolves, hfails⟩ := keyDecides_ready hready hkey
        fun name x hx => henv name x (List.mem_append_left _ hx)
      constructor
      · intro hpresent name x hx
        rcases List.mem_append.mp hx with hx | hx
        · exact hresolves hpresent name x hx
        · exact absurd rfl (hrest b t₃ r hsend _ hx name)
      · intro habsent
        obtain ⟨e, he⟩ := hfails habsent
        cases he

variable [JsonLibrary]

def ConfiguredProvider.generate (req : LlmRequest) : ConfiguredProvider → Llm LlmResponse
  | .anthropic p => p.generate req
  | .openai p => p.generate req

private theorem postFor_no_key {α : Type} {name endpoint body : Text} {headers : List (Text × Text)}
    {finish : Text → Llm α}
    (hfinish : ∀ s, Fallible.Calls (fun e => ∀ name, e.1 ≠ .envVar name) (finish s)) :
    Fallible.Calls (fun e => ∀ name, e.1 ≠ .envVar name)
      (postFor name endpoint headers body >>= finish) := by
  refine Fallible.calls_bind ?_ fun _ s _ => hfinish s
  refine Fallible.calls_bind (Fallible.calls_attempt fun _ _ h => by cases h) fun _ outcome _ => ?_
  split
  · exact Fallible.calls_pure _
  · exact Fallible.calls_throw _

/-- A provider reported as ready gets its key wherever it asks for one; one reported as not ready
fails before anything is sent. -/
theorem real_llm_readiness {p : ConfiguredProvider} (hmade : makeProvider provider = some p)
    {req : LlmRequest} {t : Trace LlmAns} {r : Except GenerationError LlmResponse}
    (hr : (p.generate req).Runs t r) (henv : AnsweredBy env t) :
    (realLlmReady env provider = true → ∀ name x, ⟨.envVar name, x⟩ ∈ t →
      ∃ key, keyFromVarResult name x = .ok key) ∧
    (realLlmReady env provider = false → (∃ e, r = .error e) ∧
      ∀ e ∈ t, ∃ name x, e = ⟨.envVar name, x⟩) := by
  obtain ⟨hmock, hkey⟩ := keyEnv_makeProvider hmade
  rw [realLlmReady_eq hmock, ← hkey]
  have hdecides : KeyDecides env p.keyEnv t r := by
    cases p with
    | anthropic p =>
      apply keyDecides_checked (asksFor_readKey p.keyEnv) (fun key => ?_) hr henv
      apply postFor_no_key
      exact fun s => Fallible.calls_bind (Fallible.calls_ofExcept _) fun _ _ _ =>
        Fallible.calls_pure _
    | openai p =>
      change (p.generate req).Runs t r at hr
      change KeyDecides env p.keyEnv t r
      unfold OpenAiProvider.generate at hr
      split at hr
      · obtain ⟨rfl, rfl⟩ := Fallible.runs_throw.mp hr
        exact ⟨fun _ _ _ h => (by cases h), fun _ => ⟨⟨_, rfl⟩, fun _ h => (by cases h)⟩⟩
      · obtain ⟨rfl, rfl⟩ := Fallible.runs_throw.mp hr
        exact ⟨fun _ _ _ h => (by cases h), fun _ => ⟨⟨_, rfl⟩, fun _ h => (by cases h)⟩⟩
      · apply keyDecides_checked (asksFor_authorization p) (fun headers => ?_) hr henv
        apply postFor_no_key
        exact fun s => Fallible.calls_bind (Fallible.calls_ofExcept _) fun _ _ _ =>
          Fallible.calls_pure _
  exact ⟨hdecides.resolves, hdecides.stops⟩

end

/-- A JSON library that reads nothing and writes nothing. -/
abbrev muteJson : JsonLibrary where
  fromStr := fun _ => none
  readError := fun _ => []
  toText := fun _ => []

def keylessConfig : ProviderConfig where
  kind := .anthropic
  baseUrl := none
  apiKeyEnv := none
  model := none
  realLlm := true

def keylessRequest : LlmRequest where
  prompt := ⟨[], []⟩
  mode := .harden
  strategy := .auto
  language := []
  symbol := none
  attempt := 0
  repairFeedback := none

def emptyEnv : ProcessEnv := fun _ => .error .notPresent

def keylessAnswers : Env LlmAns
  | _, .envVar name => emptyEnv name
  | _, .postJson _ _ _ => .error []

/-- The endpoint is fine, so the run asks for its key and stops there. -/
theorem keyless_stops :
    letI := muteJson
    let out := Prog.run keylessAnswers
      ((ConfiguredProvider.anthropic (.new keylessConfig)).generate keylessRequest).run []
    out.2 = [⟨.envVar anthropicKeyEnv, .error .notPresent⟩] ∧ ∃ e, out.1 = .error e := by
  let _ := muteJson
  have htrace : (Prog.run keylessAnswers
      ((ConfiguredProvider.anthropic (.new keylessConfig)).generate keylessRequest).run []).2 =
        [⟨.envVar anthropicKeyEnv, .error .notPresent⟩] := rfl
  have henv : AnsweredBy emptyEnv (Prog.run keylessAnswers
      ((ConfiguredProvider.anthropic (.new keylessConfig)).generate keylessRequest).run []).2 := by
    intro name x hx
    rw [htrace] at hx
    cases List.mem_singleton.mp hx
    rfl
  have hmade : makeProvider keylessConfig = some (.anthropic (.new keylessConfig)) := rfl
  exact ⟨htrace, ((real_llm_readiness hmade (Prog.runs_run _ _ _) henv).2 (by decide)).1⟩

end Jitgen
