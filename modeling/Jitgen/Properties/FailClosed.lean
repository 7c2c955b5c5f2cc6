import Jitgen.Properties.ArgvIndependence
import Jitgen.Properties.EnvLaw
import Jitgen.Properties.WrapperFailure
import Jitgen.Sandbox.Session

/-!
# Nothing runs unconfined

Whatever the host answers and whatever a client asks, a command is launched in a tier that was seen to
isolate, or in one that the operator opted in to.
-/

namespace Jitgen

open Text Detect

/-- An operation that starts no command of a request. -/
def Unlaunched (o : HostOp) : Prop := ∀ plan, o ≠ .launch plan

private theorem unlaunched_of_probes {o : HostOp} (h : Probes o) : Unlaunched o := by
  rintro plan rfl
  rcases h with h | h | ⟨_, _, _, h⟩ <;> cases h

section

variable {os : HostOs} {policy : SandboxPolicy} {b : Backend} {h t : HostTrace}

/-- What holds of a backend that was chosen, by the events so far. -/
structure Chosen (os : HostOs) (policy : SandboxPolicy) (b : Backend) (h : HostTrace) : Prop where
  permitted : b.isolates = true ∨ policy.allowUnsafeLocal = true
  requested : Backend.Requested policy.backend b
  observed : b ≠ .constrainedLocal → Observed b h
  preferred : policy.backend = .auto → ∀ c ∈ Backend.osCandidates os, c.Stronger b → Tried c false h
  helped : policy.backend = .auto → b = .constrainedLocal → os = .linux → Tried .netnsHelper false h

theorem Chosen.append (hc : Chosen os policy b h) (t : HostTrace) : Chosen os policy b (h ++ t) where
  permitted := hc.permitted
  requested := hc.requested
  observed hb := by simpa using (hc.observed hb).extend [] t
  preferred hauto c hcand hstronger := by simpa using (hc.preferred hauto c hcand hstronger).extend [] t
  helped hauto hb hos := by simpa using (hc.helped hauto hb hos).extend [] t

/-- What detection finds, with the helper that is tried apart. -/
def Found (os : HostOs) (policy : SandboxPolicy) (available : List Backend) (t : HostTrace) : Prop :=
  (∀ c ∈ available, Tried c true t) ∧
  (∀ c ∈ Backend.osCandidates os, c ∉ available → Tried c false t) ∧
  (policy.allowUnsafeLocal = true → os = .linux → Backend.netnsHelper ∉ available →
    Tried .netnsHelper false t)

private theorem tried_helper {usable : Bool}
    (hr : (if policy.allowUnsafeLocal || policy.backend = .netnsHelper
    then netnsHelperAvailable os else pure false : HostProg Bool).Runs t usable) :
    (usable = true → Tried .netnsHelper true t) ∧
      (policy.allowUnsafeLocal = true → os = .linux → usable = false →
        Tried .netnsHelper false t) := by
  by_cases hlinux : os = .linux
  · by_cases hopt : (policy.allowUnsafeLocal || policy.backend = .netnsHelper) = true
    · rw [if_pos hopt, netnsHelperAvailable, if_pos hlinux] at hr
      have htried : Tried .netnsHelper usable t := ⟨[], t, [], by simp, hr⟩
      exact ⟨fun hu => hu ▸ htried, fun _ _ hu => hu ▸ htried⟩
    · rw [if_neg hopt] at hr
      obtain ⟨-, rfl⟩ := hr
      refine ⟨fun hu => (by cases hu), fun hallowed => absurd ?_ hopt⟩
      rw [hallowed, Bool.true_or]
  · have hfalse : usable = false := by
      rw [netnsHelperAvailable, if_neg hlinux, ite_self] at hr
      exact hr.2
    subst hfalse
    exact ⟨fun hu => (by cases hu), fun _ hos => absurd hos hlinux⟩

private theorem detectAndSelect_returns {s : Sandbox}
    (hr : (Sandbox.detectAndSelect os policy).Returns t s) :
    s.policy = policy ∧ ∃ available, Found os policy available t ∧
      select available policy = .ok s.backend := by
  obtain ⟨t₁, t', found, rfl, hdetect, hr⟩ := Fallible.returns_bind.mp hr
  obtain ⟨t₂, t₃, helper, rfl, hhelper, hr⟩ := Fallible.returns_bind.mp hr
  obtain ⟨rfl, hnew⟩ := Fallible.returns_ofExcept.mp hr
  obtain ⟨hfound, hmissed⟩ := detectFrom_runs (Fallible.returns_lift.mp hdetect)
  obtain ⟨hused, hunused⟩ := tried_helper (Fallible.returns_lift.mp hhelper)
  have hfirst : ∀ c u, Tried c u t₁ → Tried c u (t₁ ++ (t₂ ++ [])) := fun c u hc => by
    simpa using hc.extend [] t₂
  have hsecond : ∀ c u, Tried c u t₂ → Tried c u (t₁ ++ (t₂ ++ [])) := fun c u hc => by
    simpa using hc.extend t₁ []
  unfold Sandbox.new at hnew
  split at hnew
  · rename_i backend hselect
    cases hnew
    refine ⟨rfl, _, ⟨?_, ?_, ?_⟩, hselect⟩
    · intro c hc
      split at hc
      · rename_i hhelp
        rcases List.mem_append.mp hc with hc | hc
        · exact hfirst c true (hfound c hc).2
        · rw [List.mem_singleton.mp hc]
          exact hsecond _ true (hused hhelp)
      · exact hfirst c true (hfound c hc).2
    · intro c hcand hnot
      apply hfirst c false
      apply hmissed c hcand
      intro hc
      refine hnot ?_
      split
      · exact List.mem_append_left _ hc
      · exact hc
    · intro hopt hos hnot
      apply hsecond _ false
      apply hunused hopt hos
      cases helper with
      | true => simp at hnot
      | false => rfl
  · cases hnew

theorem Found.chosen {available : List Backend} (hfound : Found os policy available t)
    (hselect : select available policy = .ok b) : Chosen os policy b t := by
  obtain ⟨hused, hmissed, hhelper⟩ := hfound
  have hobserved : b ∈ available → Observed b t := by
    intro hb
    obtain ⟨u, v, w, rfl, hv⟩ := hused b hb
    exact (observed_of_available hv).extend u w
  constructor
  case permitted =>
    rcases select_ok hselect with ⟨hb, -⟩ | ⟨hopt, -⟩
    · exact .inl hb
    · exact .inr hopt
  case requested => exact select_requested hselect
  case observed =>
    intro hb
    rcases select_ok hselect with ⟨-, hmem⟩ | ⟨-, hlocal | ⟨-, hmem⟩⟩
    · exact hobserved hmem
    · exact absurd hlocal hb
    · exact hobserved hmem
  case preferred =>
    intro hauto c hcand hstronger
    exact hmissed c hcand (select_auto_preferred hauto hselect hstronger)
  case helped =>
    rintro hauto rfl hos
    have hopt : policy.allowUnsafeLocal = true := by
      rcases select_ok hselect with ⟨hb, -⟩ | ⟨hopt, -⟩
      · cases hb
      · exact hopt
    exact hhelper hopt hos (netns_not_mem_of_auto_local hauto hselect)

/-- A probe right before the launch did not show that commands run without a sandbox. -/
def Undegraded (b : Backend) (t : HostTrace) : Prop :=
  ∃ r, (probeBehavioral b).Runs t r ∧ ∀ p, r = some p →
    ¬ netOk <:+: p.outcome.stdout ∧ b.stderrShowsSilentDegradation p.outcome.stderr = false

/-- A directory was made where nothing stood. -/
def MadeFresh (dir : Text) (t : HostTrace) : Prop :=
  ⟨.symlinkMetadata dir, .absent⟩ ∈ t ∧ ⟨.createDir dir, true⟩ ∈ t

/-- What a run does up to the launch of its plan. -/
structure Prepared (plan : SandboxPlan) (t : HostTrace) : Prop where
  unlaunched : ∀ e ∈ t, Unlaunched e.1
  rechecked : plan.backend.hasSilentDegradationMode = true →
    ∃ u w, t = u ++ w ∧ Undegraded plan.backend u
  fresh : ∃ overlayRoot, MadeFresh (Sandbox.homeDir overlayRoot) t ∧
    MadeFresh (Sandbox.tmpDir overlayRoot) t ∧
    (plan.backend.isContainer = false →
      plan.env.lookup ("HOME" : Text) = some (Sandbox.homeDir overlayRoot) ∧
        plan.env.lookup ("TMPDIR" : Text) = some (Sandbox.tmpDir overlayRoot)) ∧
    (plan.backend.isContainer = true →
      plan.env.lookup ("HOME" : Text) = some (overlayRoot ++ ("/.jitgen-home" : Text)) ∧
        plan.env.lookup ("TMPDIR" : Text) = some ("/tmp" : Text))

theorem planned {input : PlanInput} {plan : SandboxPlan} (hplan : buildPlan input = .ok plan) :
    plan.backend = input.backend ∧
      plan.env = if input.backend.isContainer then containerEnv input else input.env := by
  obtain ⟨cwd, inner, q, -, hinner, hq, rfl⟩ := buildPlan_ok hplan
  have hne : carried input ++ inner ≠ [] := by simp [innerArgv_ne_nil hinner]
  have hframe := (planFor_ok hne hq).2
  have hbackend := congrArg SandboxPlan.backend hframe
  have henv := congrArg SandboxPlan.env hframe
  unfold frameOf at hbackend henv
  refine ⟨hbackend.trans ?_, henv.trans ?_⟩
  · split <;> rfl
  · split <;> rfl

private theorem createFreshDir_returns {dir : Text} {u : Unit}
    (hr : (createFreshDir dir).Returns t u) :
    MadeFresh dir t ∧ ∀ e ∈ t, Unlaunched e.1 := by
  obtain ⟨t₁, t₂, leaf, rfl, hleaf, hmake⟩ := Fallible.returns_bind.mp hr
  obtain ⟨_, _, rfl, rfl, rfl⟩ := Fallible.returns_lift.mp hleaf
  cases leaf with
  | present => exact absurd hmake Fallible.returns_throw
  | unreadable => exact absurd hmake Fallible.returns_throw
  | absent =>
    obtain ⟨created, rfl, hcreated⟩ := Fallible.returns_attempt.mp hmake
    have hmade : created = true := by
      cases created with
      | true => rfl
      | false => cases hcreated
    subst hmade
    refine ⟨⟨by simp, by simp⟩, fun e he => ?_⟩
    rcases List.mem_cons.mp he with rfl | he
    · exact fun plan heq => (by cases heq)
    · rw [List.mem_singleton.mp he]
      exact fun plan heq => (by cases heq)

theorem MadeFresh.extend {dir : Text} (hm : MadeFresh dir t) (u w : HostTrace) :
    MadeFresh dir (u ++ t ++ w) :=
  ⟨by simp [hm.1], by simp [hm.2]⟩

private theorem lookup_home (parent : EnvMap) (p : ExecPolicy)
    (home tmp overlayRoot stateRoot : Text) :
    (buildEnv parent p home tmp overlayRoot stateRoot).1.lookup ("HOME" : Text) = some home ∧
      (buildEnv parent p home tmp overlayRoot stateRoot).1.lookup ("TMPDIR" : Text) = some tmp := by
  have hhome : ("HOME" : Text) ∈ ownNames := by decide
  have htmp : ("TMPDIR" : Text) ∈ ownNames := by decide
  rw [lookup_buildEnv hhome, lookup_buildEnv htmp, ownEnv]
  simp [EnvMap.lookup_insert]

private theorem lookup_containerEnv (input : PlanInput) :
    (containerEnv input).lookup ("HOME" : Text) =
        some (input.overlayRoot ++ ("/.jitgen-home" : Text)) ∧
      (containerEnv input).lookup ("TMPDIR" : Text) = some ("/tmp" : Text) := by
  simp [containerEnv, EnvMap.lookup_insert]

/-- What was prepared: the places are fresh and the plan's environment names them. -/
private theorem prepare_returns {s : Sandbox} {req : RunRequest} {plan : SandboxPlan}
    (hr : (s.prepare req).Returns t plan) :
    (∀ e ∈ t, Unlaunched e.1) ∧ plan.backend = s.backend ∧ ∃ overlayRoot,
      MadeFresh (Sandbox.homeDir overlayRoot) t ∧ MadeFresh (Sandbox.tmpDir overlayRoot) t ∧
      (s.backend.isContainer = false →
        plan.env.lookup ("HOME" : Text) = some (Sandbox.homeDir overlayRoot) ∧
          plan.env.lookup ("TMPDIR" : Text) = some (Sandbox.tmpDir overlayRoot)) ∧
      (s.backend.isContainer = true →
        plan.env.lookup ("HOME" : Text) = some (overlayRoot ++ ("/.jitgen-home" : Text)) ∧
          plan.env.lookup ("TMPDIR" : Text) = some ("/tmp" : Text)) := by
  obtain ⟨t₁, t', overlayRoot, rfl, hoverlay, hr₁⟩ := Fallible.returns_bind.mp hr
  obtain ⟨t₂, t', stateRoot, rfl, hstate, hr₂⟩ := Fallible.returns_bind.mp hr₁
  obtain ⟨t₃, t', _, rfl, hhome, hr₃⟩ := Fallible.returns_bind.mp hr₂
  obtain ⟨t₄, t', _, rfl, htmp, hr₄⟩ := Fallible.returns_bind.mp hr₃
  obtain ⟨t₅, t', parent, rfl, hparent, hr₅⟩ := Fallible.returns_bind.mp hr₄
  obtain ⟨rfl, hbuilt⟩ := Fallible.returns_ofExcept.mp hr₅
  obtain ⟨_, rfl, -⟩ := Fallible.returns_attempt.mp hoverlay
  obtain ⟨_, rfl, -⟩ := Fallible.returns_attempt.mp hstate
  obtain ⟨_, _, rfl, rfl, rfl⟩ := Fallible.returns_lift.mp hparent
  obtain ⟨hfreshHome, hquietHome⟩ := createFreshDir_returns hhome
  obtain ⟨hfreshTmp, hquietTmp⟩ := createFreshDir_returns htmp
  have hplan : buildPlan (s.planInput req overlayRoot stateRoot parent) = .ok plan := by
    cases hplan : buildPlan (s.planInput req overlayRoot stateRoot parent) with
    | error e =>
      rw [hplan] at hbuilt
      cases hbuilt
    | ok p =>
      rw [hplan] at hbuilt
      cases hbuilt
      rfl
  obtain ⟨hbackend, henv⟩ := planned hplan
  refine ⟨?_, hbackend, overlayRoot, ?_, ?_, fun hdirect => ?_, fun hcontainer => ?_⟩
  · intro e he
    simp only [List.cons_append, List.nil_append, List.mem_cons, List.mem_append, List.append_nil,
      List.not_mem_nil, or_false] at he
    rcases he with rfl | rfl | he | he | rfl
    · exact fun plan heq => (by cases heq)
    · exact fun plan heq => (by cases heq)
    · exact hquietHome e he
    · exact hquietTmp e he
    · exact fun plan heq => (by cases heq)
  · simpa using hfreshHome.extend [_, _] (t₄ ++ [_])
  · simpa using hfreshTmp.extend (_ :: _ :: t₃) [_]
  · rw [henv, show (s.planInput req overlayRoot stateRoot parent).backend = s.backend from rfl,
      hdirect]
    exact lookup_home parent _ _ _ overlayRoot stateRoot
  · rw [henv, show (s.planInput req overlayRoot stateRoot parent).backend = s.backend from rfl,
      hcontainer]
    exact lookup_containerEnv _

/-- What holds when a plan is launched, by the events so far: its backend was rightly chosen, and
the events since the request came prepared it. -/
structure LaunchRule (os : HostOs) (policy : SandboxPolicy) (h : HostTrace) (plan : SandboxPlan) :
    Prop where
  chosen : Chosen os policy plan.backend h
  prepared : ∃ u v, h = u ++ v ∧ Prepared plan v

/-- Launches follow the rule. -/
def Ruled (os : HostOs) (policy : SandboxPolicy) (h : HostTrace) (o : HostOp) : Prop :=
  ∀ plan, o = .launch plan → LaunchRule os policy h plan

private theorem ruled_of_probes {o : HostOp} (ho : Probes o) : Ruled os policy h o :=
  fun plan heq => absurd heq (unlaunched_of_probes ho plan)

private theorem unlaunched_probing {α : Type} {p : HostProg α} {a : α} (hp : OnlyProbes [] p)
    (hr : p.Runs t a) : ∀ e ∈ t, Unlaunched e.1 := by
  intro e he
  obtain ⟨u, w, rfl⟩ := List.append_of_mem he
  exact unlaunched_of_probes (hp.call_of_runs hr)

private theorem ruled_probing {α : Type} {p : HostProg α} (hp : OnlyProbes h p) :
    p.Guarded (Ruled os policy) h :=
  hp.mono fun _ _ ho => ruled_of_probes ho

private theorem unlaunched_createFreshDir {dir : Text} :
    Fallible.Guarded (fun _ => Unlaunched) h (createFreshDir dir) := by
  apply Fallible.guarded_bind
  · exact Fallible.guarded_lift (Prog.guarded_ask fun plan heq => by cases heq)
  · intro _ leaf _
    cases leaf with
    | present => trivial
    | unreadable => trivial
    | absent => exact Fallible.guarded_attempt fun plan heq => by cases heq

private theorem unlaunched_prepare {s : Sandbox} {req : RunRequest} :
    Fallible.Guarded (fun _ => Unlaunched) h (s.prepare req) := by
  unfold Sandbox.prepare canonicalize
  apply Fallible.guarded_bind (Fallible.guarded_attempt fun plan heq => by cases heq)
  intro _ overlayRoot _
  apply Fallible.guarded_bind (Fallible.guarded_attempt fun plan heq => by cases heq)
  intro _ stateRoot _
  apply Fallible.guarded_bind unlaunched_createFreshDir
  intro _ _ _
  apply Fallible.guarded_bind unlaunched_createFreshDir
  intro _ _ _
  apply Fallible.guarded_bind
    (Fallible.guarded_lift (Prog.guarded_ask fun plan heq => by cases heq))
  intro _ parent _
  exact Fallible.guarded_ofExcept _

private theorem undegraded_of_probe (hr : (backendSilentlyDegrades b).Runs t false)
    (hmode : b.hasSilentDegradationMode = true) : Undegraded b t := by
  unfold backendSilentlyDegrades at hr
  rw [if_pos hmode] at hr
  obtain ⟨t₁, t₂, r, rfl, hp, hr⟩ := Prog.runs_bind.mp hr
  cases r with
  | none =>
    obtain ⟨rfl, -⟩ := hr
    rw [List.append_nil]
    exact ⟨none, hp, fun p heq => by cases heq⟩
  | some p =>
    obtain ⟨rfl, hshows⟩ := hr
    rw [List.append_nil]
    refine ⟨some p, hp, fun p' heq => ?_⟩
    cases heq
    obtain ⟨_, _, _, _, _, _, -, -, -, -, hisolated⟩ := probeBehavioral_runs hp
    have hneither := hshows.symm
    rw [behavioralProbeShowsDegradation, Bool.or_eq_false_iff, hisolated] at hneither
    refine ⟨fun hopen => ?_, hneither.1⟩
    rw [netProbeVerdict_open.mpr hopen] at hneither
    simp at hneither

variable [WordChars]

private theorem ruled_execute {s : Sandbox} {plan : SandboxPlan}
    (hplan : LaunchRule os policy h plan) :
    Fallible.Guarded (Ruled os policy) h (s.execute plan) := by
  apply Fallible.guarded_bind
  · apply Fallible.guarded_lift
    apply Prog.guarded_ask
    intro plan' heq
    cases heq
    exact hplan
  · intro _ launch _
    apply Fallible.guarded_bind (Fallible.guarded_ofExcept _)
    intro _ r _
    apply Fallible.guarded_bind
    · apply Fallible.guarded_lift
      unfold Sandbox.isPersistentWrapperFailure backendAvailableNow
      split
      · exact ruled_probing (Prog.guarded_bind onlyProbes_available fun _ _ _ => trivial)
      · trivial
    · intro _ gone _
      cases gone <;> trivial

/-- Every launch of one request follows the rule once the backend was chosen. -/
private theorem ruled_run {s : Sandbox} (hchosen : Chosen os policy s.backend h)
    (req : RunRequest) :
    Fallible.Guarded (Ruled os policy) h (s.run req) := by
  apply Fallible.guarded_bind
  · exact Fallible.guarded_lift (ruled_probing onlyProbes_backendSilentlyDegrades)
  · intro t₁ degraded hdegraded
    have hprobed := Fallible.returns_lift.mp hdegraded
    have hquiet := unlaunched_probing onlyProbes_backendSilentlyDegrades hprobed
    cases degraded with
    | true => trivial
    | false =>
      apply Fallible.guarded_bind
        (unlaunched_prepare.mono fun _ _ ho plan heq => absurd heq (ho plan))
      intro t₂ plan hprepare
      obtain ⟨hquiet', hbackend, overlayRoot, hhome, htmp, hdirect, hcontainer⟩ :=
        prepare_returns hprepare
      apply ruled_execute
      constructor
      case chosen =>
        rw [hbackend]
        exact (hchosen.append t₁).append t₂
      case prepared =>
        refine ⟨h, t₁ ++ t₂, List.append_assoc _ _ _, ?_, ?_, overlayRoot, ?_, ?_, ?_, ?_⟩
        · intro e he
          rcases List.mem_append.mp he with he | he
          · exact hquiet e he
          · exact hquiet' e he
        · intro hmode
          rw [hbackend] at hmode ⊢
          exact ⟨t₁, t₂, rfl, undegraded_of_probe hprobed hmode⟩
        · simpa using hhome.extend t₁ []
        · simpa using htmp.extend t₁ []
        · rwa [hbackend]
        · rwa [hbackend]

/-- Whatever the host answers and whatever a client asks, depending on the results before: a command
is launched in a tier that was seen to isolate or that the operator opted in to, after every stronger
one failed, and in places made for it alone. -/
theorem session_fail_closed {α : Type} {client : Prog Sandbox.RunAns α} {u v : HostTrace}
    {plan : SandboxPlan} {launch : Launch} {r : Except CapstoneError α}
    (hr : (Sandbox.session os policy client).Runs (u ++ ⟨.launch plan, launch⟩ :: v) r) :
    LaunchRule os policy u plan := by
  have hsession : Fallible.Guarded (Ruled os policy) [] (Sandbox.session os policy client) := by
    apply Fallible.guarded_bind
    · unfold Sandbox.detectAndSelect
      apply Fallible.guarded_bind
        (Fallible.guarded_lift (ruled_probing (onlyProbes_detectFrom _)))
      intro _ found _
      apply Fallible.guarded_bind
      · apply Fallible.guarded_lift
        split
        · exact ruled_probing onlyProbes_netnsHelperAvailable
        · trivial
      · intro _ helper _
        exact Fallible.guarded_ofExcept _
    · intro t s hs
      obtain ⟨hpolicy, available, hfound, hselect⟩ := detectAndSelect_returns hs
      apply Fallible.guarded_lift
      apply Prog.guarded_serve (I := fun h => Chosen os policy s.backend h)
      · intro req h hchosen
        exact ruled_run hchosen req
      · intro req h t x hchosen _
        exact hchosen.append t
      · rw [List.nil_append]
        exact hfound.chosen hselect
  exact hsession.call_of_runs hr plan rfl

end

section

variable {s : Sandbox} {req : RunRequest} {b : Backend} {t : HostTrace} {plan : SandboxPlan}

/-- An error other than that the backend became unusable. -/
def NotMidRun (e : CapstoneError) : Prop := ∀ id, e ≠ .backendUnavailableMidRun id

private theorem throws_executor {α : Type} (r : Except SandboxError α) :
    Fallible.Throws NotMidRun
      (Fallible.ofExcept (r.mapError CapstoneError.executor) : SandboxProg α) := by
  apply Fallible.throws_ofExcept
  intro e he
  cases r with
  | ok a => cases he
  | error e' =>
    cases he
    exact fun id heq => (by cases heq)

private theorem throws_createFreshDir (dir : Text) :
    Fallible.Throws NotMidRun (createFreshDir dir) := by
  refine Fallible.throws_bind Fallible.throws_lift fun leaf => ?_
  cases leaf with
  | present => exact Fallible.throws_throw fun id heq => by cases heq
  | unreadable => exact Fallible.throws_throw fun id heq => by cases heq
  | absent =>
    apply Fallible.throws_attempt
    intro created e he
    cases created with
    | true => cases he
    | false =>
      cases he
      exact fun id heq => (by cases heq)

private theorem throws_canonicalize (path : Text) :
    Fallible.Throws NotMidRun (canonicalize path) := by
  apply Fallible.throws_attempt
  intro found e he
  cases found with
  | some p => cases he
  | none =>
    cases he
    exact fun id heq => (by cases heq)

private theorem throws_prepare : Fallible.Throws NotMidRun (s.prepare req) := by
  refine Fallible.throws_bind (throws_canonicalize _) fun overlayRoot => ?_
  refine Fallible.throws_bind (throws_canonicalize _) fun stateRoot => ?_
  refine Fallible.throws_bind (throws_createFreshDir _) fun _ => ?_
  refine Fallible.throws_bind (throws_createFreshDir _) fun _ => ?_
  refine Fallible.throws_bind Fallible.throws_lift fun parent => ?_
  exact throws_executor _

variable [WordChars]

/-- What a launched plan comes to. -/
def RunEnds (s : Sandbox) (plan : SandboxPlan) (launch : Launch) (t : HostTrace)
    (r : Except CapstoneError ExecutionResult) : Prop :=
  match runReporting plan s.policy.toExecPolicy launch with
  | .error e => t = [] ∧ r = .error (.executor e)
  | .ok (res, never) => ∃ gone, (Sandbox.isPersistentWrapperFailure s.backend never).Runs t gone ∧
    r = if gone then .error (.backendUnavailableMidRun s.backend.id) else .ok res

private theorem execute_runEnds {r : Except CapstoneError ExecutionResult}
    (hr : (s.execute plan).Runs t r) :
    ∃ launch t', t = ⟨.launch plan, launch⟩ :: t' ∧ RunEnds s plan launch t' r := by
  rcases Fallible.runs_bind.mp hr with ⟨e, rfl, hlift⟩ | ⟨t₁, t₂, launch, rfl, hlaunch, hr₁⟩
  · obtain ⟨_, he, -⟩ := Fallible.runs_lift.mp hlift
    cases he
  · obtain ⟨_, _, rfl, rfl, rfl⟩ := Fallible.returns_lift.mp hlaunch
    refine ⟨launch, t₂, rfl, ?_⟩
    unfold RunEnds
    cases hreport : runReporting plan s.policy.toExecPolicy launch with
    | error e =>
      rw [hreport] at hr₁
      rcases Fallible.runs_bind.mp hr₁ with ⟨e', rfl, hnil, he⟩ | ⟨_, _, _, -, hok, -⟩
      · cases he
        exact ⟨hnil, rfl⟩
      · cases (Fallible.returns_ofExcept.mp hok).2
    | ok report =>
      rw [hreport] at hr₁
      rcases Fallible.runs_bind.mp hr₁ with ⟨e', rfl, hnil, he⟩ | ⟨t₃, t₄, rep, rfl, hok, hr₂⟩
      · cases he
      · obtain ⟨rfl, heq⟩ := Fallible.returns_ofExcept.mp hok
        cases heq
        rcases Fallible.runs_bind.mp hr₂ with ⟨e', rfl, hlift⟩ | ⟨t₅, t₆, gone, rfl, hgone, hr₃⟩
        · obtain ⟨_, he, -⟩ := Fallible.runs_lift.mp hlift
          cases he
        · refine ⟨gone, ?_⟩
          have hprobed := Fallible.returns_lift.mp hgone
          cases gone with
          | true =>
            obtain ⟨rfl, rfl⟩ := Fallible.runs_throw.mp hr₃
            simpa using hprobed
          | false =>
            obtain ⟨rfl, rfl⟩ := Fallible.runs_pure.mp hr₃
            simpa using hprobed

/-- A run launches nothing and fails, or launches one plan and answers what came of it. -/
theorem run_cases {r : Except CapstoneError ExecutionResult} (hr : (s.run req).Runs t r) :
    ((∀ e ∈ t, Unlaunched e.1) ∧ ∃ e, r = .error e ∧ NotMidRun e) ∨
    ∃ t₁ plan launch t₂, t = t₁ ++ ⟨.launch plan, launch⟩ :: t₂ ∧ (∀ e ∈ t₁, Unlaunched e.1) ∧
      plan.backend = s.backend ∧ RunEnds s plan launch t₂ r := by
  rcases Fallible.runs_bind.mp hr with ⟨e, rfl, hlift⟩ | ⟨t₁, t', degraded, rfl, hdegraded, hr₁⟩
  · obtain ⟨_, he, -⟩ := Fallible.runs_lift.mp hlift
    cases he
  · have hquiet := unlaunched_probing onlyProbes_backendSilentlyDegrades
      (Fallible.returns_lift.mp hdegraded)
    cases degraded with
    | true =>
      have hthrow : (throw (.executor (.sandboxDegraded s.backend.id)) :
          SandboxProg ExecutionResult).Runs t' r := hr₁
      obtain ⟨rfl, rfl⟩ := Fallible.runs_throw.mp hthrow
      refine .inl ⟨by simpa using hquiet, _, rfl, fun id heq => ?_⟩
      cases heq
    | false =>
      have hrest : (s.prepare req >>= fun plan => s.execute plan).Runs t' r := hr₁
      rcases Fallible.runs_bind.mp hrest with ⟨e, rfl, hfail⟩ | ⟨t₂, t₃, plan, rfl, hplan, hexec⟩
      · refine .inl ⟨fun x hx => ?_, e, rfl, throws_prepare _ e hfail⟩
        rcases List.mem_append.mp hx with hx | hx
        · exact hquiet x hx
        · exact unlaunched_prepare.of_mem hfail x hx
      · obtain ⟨launch, t₄, rfl, hends⟩ := execute_runEnds hexec
        refine .inr ⟨t₁ ++ t₂, plan, launch, t₄, by simp, fun x hx => ?_, ?_, hends⟩
        · rcases List.mem_append.mp hx with hx | hx
          · exact hquiet x hx
          · exact unlaunched_prepare.of_mem hplan x hx
        · exact (prepare_returns hplan).2.1

private theorem never_started_outcome {p : ExecPolicy} {launch : Launch} {res : ExecutionResult}
    (hrun : runReporting plan p launch = .ok (res, true)) :
    res.outcome = .errored ∨ res.outcome = .timeout := by
  unfold runReporting at hrun
  cases launch with
  | untrusted => cases hrun
  | notSpawned => cases hrun
  | spawned child =>
    dsimp only at hrun
    split at hrun
    · cases hrun
    · split at hrun
      · cases hrun
      · rename_i status timedOut _
        have hboth := Except.ok.inj hrun
        have hnever := congrArg Prod.snd hboth
        have hres := congrArg (fun x => x.1.outcome) hboth
        rw [← hres]
        dsimp only at hnever ⊢
        rw [hnever]
        cases timedOut with
        | true => exact .inr rfl
        | false => exact .inl rfl

private theorem spawned_of_report {p : ExecPolicy} {launch : Launch} {res : ExecutionResult × Bool}
    (hrun : runReporting plan p launch = .ok res) : ∃ child, launch = .spawned child := by
  cases launch with
  | untrusted => cases hrun
  | notSpawned => cases hrun
  | spawned child => exact ⟨child, rfl⟩

omit [WordChars] in
private theorem reprobes_iff : b.reprobesOnInnerNeverStarted = true ↔ b = .netnsHelper := by
  cases b <;> decide

omit [WordChars] in
private theorem persistent_runs {never gone : Bool}
    (hr : (Sandbox.isPersistentWrapperFailure b never).Runs t gone) :
    (never = true ∧ b = .netnsHelper ∧ (available b).Runs t (!gone)) ∨
      ¬ (never = true ∧ b = .netnsHelper) ∧ t = [] ∧ gone = false := by
  unfold Sandbox.isPersistentWrapperFailure at hr
  split at hr
  · rename_i hboth
    rw [Bool.and_eq_true, reprobes_iff] at hboth
    obtain ⟨t₁, t₂, usable, rfl, hprobe, rfl, rfl⟩ := Prog.runs_bind.mp hr
    refine .inl ⟨hboth.1, hboth.2, ?_⟩
    rw [Bool.not_not, List.append_nil]
    exact hprobe
  · rename_i hneither
    rw [Bool.and_eq_true, reprobes_iff] at hneither
    exact .inr ⟨hneither, hr.1, hr.2⟩

omit [WordChars] in
private theorem unlaunched_persistent {never gone : Bool}
    (hr : (Sandbox.isPersistentWrapperFailure b never).Runs t gone) :
    ∀ e ∈ t, Unlaunched e.1 := by
  rcases persistent_runs hr with ⟨-, -, hprobe⟩ | ⟨-, rfl, -⟩
  · exact unlaunched_probing onlyProbes_available hprobe
  · simp

private theorem RunEnds.unlaunched {launch : Launch} {r : Except CapstoneError ExecutionResult}
    (hj : RunEnds s plan launch t r) : ∀ e ∈ t, Unlaunched e.1 := by
  unfold RunEnds at hj
  split at hj
  · rw [hj.1]
    simp
  · obtain ⟨gone, hgone, -⟩ := hj
    exact unlaunched_persistent hgone

omit [WordChars] in
private theorem launch_unique {u u' v v' : HostTrace} {plan' : SandboxPlan}
    {launch launch' : Launch}
    (heq : u ++ ⟨.launch plan, launch⟩ :: v = u' ++ ⟨.launch plan', launch'⟩ :: v')
    (hu : ∀ e ∈ u, Unlaunched e.1) (hv : ∀ e ∈ v, Unlaunched e.1) :
    plan = plan' ∧ launch = launch' ∧ v = v' := by
  rcases List.append_eq_append_iff.mp heq with ⟨w, rfl, hw⟩ | ⟨w, rfl, hw⟩
  · cases w with
    | nil =>
      cases hw
      exact ⟨rfl, rfl, rfl⟩
    | cons x w =>
      cases hw
      exact absurd rfl (hv ⟨.launch plan', launch'⟩ (by simp) plan')
  · cases w with
    | nil =>
      cases hw
      exact ⟨rfl, rfl, rfl⟩
    | cons x w =>
      cases hw
      exact absurd rfl (hu ⟨.launch plan', launch'⟩ (by simp) plan')

/-- A result is that of the one command the run launched. Where the command was never seen to start,
it is no verdict, and the helper was seen to work again; where the helper then failed again, and only
there, the run is given up. -/
theorem run_wrapper_failure {r : Except CapstoneError ExecutionResult} (hr : (s.run req).Runs t r) :
    (∀ res, r = .ok res → ∃ t₁ plan child t₂ never,
      t = t₁ ++ ⟨.launch plan, .spawned child⟩ :: t₂ ∧ (∀ e ∈ t₁ ++ t₂, Unlaunched e.1) ∧
      plan.backend = s.backend ∧
      runReporting plan s.policy.toExecPolicy (.spawned child) = .ok (res, never) ∧
      (never = true → (res.outcome = .errored ∨ res.outcome = .timeout) ∧
        (s.backend = .netnsHelper → Observed .netnsHelper t₂))) ∧
    ∀ id, r = .error (.backendUnavailableMidRun id) ↔
      s.backend = .netnsHelper ∧ id = "netns-helper" ∧ ∃ t₁ plan launch t₂ res,
        t = t₁ ++ ⟨.launch plan, launch⟩ :: t₂ ∧
        runReporting plan s.policy.toExecPolicy launch = .ok (res, true) ∧
        (available .netnsHelper).Runs t₂ false := by
  rcases run_cases hr with ⟨hquiet, e, rfl, hnot⟩ | ⟨t₁, plan, launch, t₂, rfl, hquiet, hbackend, hj⟩
  · refine ⟨fun res heq => (by cases heq), fun id => ⟨fun heq => ?_, ?_⟩⟩
    · cases heq
      exact absurd rfl (hnot id)
    · rintro ⟨-, -, _, plan, launch, _, _, rfl, -⟩
      exact absurd rfl (hquiet ⟨.launch plan, launch⟩ (by simp) plan)
  · have hafter := hj.unlaunched
    unfold RunEnds at hj
    split at hj
    · rename_i e hreport
      obtain ⟨rfl, rfl⟩ := hj
      refine ⟨fun res heq => (by cases heq), fun id => ⟨fun heq => (by cases heq), ?_⟩⟩
      rintro ⟨-, -, _, plan', launch', _, _, heq, hreport', -⟩
      obtain ⟨rfl, rfl, -⟩ := launch_unique heq hquiet hafter
      cases hreport.symm.trans hreport'
    · rename_i res never hreport
      obtain ⟨gone, hgone, rfl⟩ := hj
      constructor
      · intro res' heq
        cases gone with
        | true => cases heq
        | false =>
          cases heq
          obtain ⟨child, rfl⟩ := spawned_of_report hreport
          refine ⟨t₁, plan, child, t₂, never, rfl, ?_, hbackend, hreport, ?_⟩
          · intro e he
            exact (List.mem_append.mp he).elim (hquiet e) (hafter e)
          · rintro rfl
            refine ⟨never_started_outcome hreport, fun hnetns => ?_⟩
            rcases persistent_runs hgone with ⟨-, -, hprobe⟩ | ⟨hneither, -, -⟩
            · rw [hnetns] at hprobe
              exact observed_of_available hprobe
            · exact absurd ⟨rfl, hnetns⟩ hneither
      · intro id
        constructor
        · intro heq
          cases gone with
          | false => cases heq
          | true =>
            rcases persistent_runs hgone with ⟨rfl, hnetns, hprobe⟩ | ⟨-, -, hfalse⟩
            · rw [hnetns] at heq hprobe
              cases heq
              exact ⟨hnetns, rfl, t₁, plan, launch, t₂, res, rfl, hreport, hprobe⟩
            · cases hfalse
        · rintro ⟨hnetns, rfl, _, plan', launch', t₂', res', heq, hreport', hprobe'⟩
          obtain ⟨rfl, rfl, rfl⟩ := launch_unique heq hquiet hafter
          cases hreport.symm.trans hreport'
          rcases persistent_runs hgone with ⟨-, -, hprobe⟩ | ⟨hneither, -, -⟩
          · rw [hnetns] at hprobe
            have hresult := Prog.runs_unique hprobe hprobe'
            cases gone with
            | true =>
              rw [hnetns]
              rfl
            | false => cases hresult
          · exact absurd ⟨rfl, hnetns⟩ hneither

end

/-- The helper is chosen, and cannot create its namespaces any more. -/
def brokenHelper : Sandbox where
  backend := .netnsHelper
  policy := { SandboxPolicy.fromTrusted .default with allowUnsafeLocal := true }
  warnings := []

def brokenFiles : FileSystem :=
  .ofList [([], .dir), (["overlay"], .dir), (["state"], .dir), (["usr"], .dir), (["usr", "bin"], .dir),
    (["usr", "bin", "unshare"], .file [])] (by decide +kernel) (by decide +kernel)

def brokenAnswers : (o : HostOp) → HostAns o
  | .launcherHost => ⟨brokenFiles, fun _ => 0o755, fun _ => false, [], "/usr/bin"⟩
  | .listen => none
  | .probe _ _ _ => ⟨false, [], "unshare: unshare failed: No space left on device\n"⟩
  | .canonicalize path => some path
  | .symlinkMetadata _ => .absent
  | .createDir _ => true
  | .processEnv => []
  | .launch _ => .spawned namespaceError

def testRun : RunRequest := ⟨testRequest ["test"] .default, "/overlay", "/state", "r1", none⟩

def brokenRun : Except CapstoneError ExecutionResult × HostTrace :=
  letI := asciiWords
  (brokenHelper.run testRun).run.run (fun _ => brokenAnswers) []

theorem brokenRun_given_up :
    letI := asciiWords
    ∃ t₁ plan launch t₂ res, brokenRun.2 = t₁ ++ ⟨.launch plan, launch⟩ :: t₂ ∧
      runReporting plan brokenHelper.policy.toExecPolicy launch = .ok (res, true) ∧
      (available .netnsHelper).Runs t₂ false := by
  let _ := asciiWords
  have hr : (brokenHelper.run testRun).Runs brokenRun.2 brokenRun.1 := Prog.runs_run _ _ _
  have hresult : brokenRun.1 = .error (.backendUnavailableMidRun "netns-helper") := rfl
  obtain ⟨-, -, hrest⟩ := ((run_wrapper_failure hr).2 _).mp hresult
  exact hrest

/-- A host with no other launcher than firejail. -/
def firejailFiles : FileSystem :=
  .ofList [([], .dir), (["usr"], .dir), (["usr", "bin"], .dir), (["usr", "bin", "firejail"], .file [])]
    (by decide +kernel) (by decide +kernel)

/-- The script reaches the listener outside and not inside, and the command passes. -/
def firejailAnswers : (o : HostOp) → HostAns o
  | .launcherHost => ⟨firejailFiles, fun _ => 0o755, fun _ => false, [], "/usr/bin"⟩
  | .listen => some 4711
  | .probe program _ _ => ⟨true, if program = "/bin/sh" then "NET_OK\n" else "NET_DENIED\n", []⟩
  | .canonicalize path => some path
  | .symlinkMetadata _ => .absent
  | .createDir _ => true
  | .processEnv => [("PATH", "/usr/bin")]
  | .launch _ => .spawned ⟨[.ok [], .ok []], [.ok [], .ok []], .ok (⟨some 0, none⟩, false), 5⟩

/-- A client that asks for one test run. -/
def oneRun : Prog Sandbox.RunAns Bool :=
  .call testRun fun r =>
    .pure (match r with
      | .ok result => result.passed
      | .error _ => false)

def firejailSession : Except CapstoneError Bool × HostTrace :=
  letI := asciiWords
  (Sandbox.session .linux (.fromTrusted .default) oneRun).run.run (fun _ => firejailAnswers) []

def isLaunch : HostOp → Bool
  | .launch _ => true
  | _ => false

theorem firejailSession_fail_closed : ∃ u plan,
    LaunchRule .linux (.fromTrusted .default) u plan ∧ plan.backend = .firejail := by
  let _ := asciiWords
  have hlaunch : (firejailSession.2.any fun e => isLaunch e.1) = true := by decide +kernel
  have hbackends : (firejailSession.2.all fun e => match e.1 with
      | .launch plan => plan.backend = .firejail
      | _ => true) = true := by decide +kernel
  obtain ⟨⟨o, x⟩, he, ho⟩ := List.any_eq_true.mp hlaunch
  have hbackend := List.all_eq_true.mp hbackends _ he
  obtain ⟨u, v, htrace⟩ := List.append_of_mem he
  cases o <;> simp only [isLaunch, Bool.false_eq_true] at ho
  rename_i plan
  have hr : (Sandbox.session .linux (.fromTrusted .default) oneRun).Runs firejailSession.2
      firejailSession.1 := Prog.runs_run _ _ _
  rw [htrace] at hr
  exact ⟨u, plan, session_fail_closed hr, by simpa using hbackend⟩

end Jitgen
