import Jitgen.Sandbox.Command

/-!
# Requests and command lines

A plan is the launcher's own command line followed by the command of the request. Which launcher
runs, and with which arguments and environment, does not depend on the command.
-/

namespace Jitgen

open Text

/-- The whole command line of a plan. -/
def SandboxPlan.argv (p : SandboxPlan) : List Text := p.program :: p.args

/-- What a tier puts before the command of a request. -/
def carried (input : PlanInput) : List Text :=
  if input.backend.usesPreamble then preamble input.policy.limits else []

def profileOf (input : PlanInput) : Text :=
  match renderProfile input.overlayRoot input.syntheticTmp with
  | .ok profile => profile
  | .error _ => []

def imageOf (input : PlanInput) : Text := input.policy.dockerImage.getD []

def engineOf (input : PlanInput) : Text := if input.backend = .podman then "podman" else "docker"

/-- The command line of the launcher itself. -/
def launcherArgv (input : PlanInput) (cwd : Text) : List Text :=
  match input.backend with
  | .sandboxExec => ["sandbox-exec", "-p", profileOf input]
  | .bwrap => ("bwrap" : Text) :: bwrapOptions input cwd ++ setenvOptions input.env ++ [("--" : Text)]
  | .firejail => ("firejail" : Text) :: firejailOptions input ++ [("--" : Text)]
  | .docker | .podman => engineOf input :: engineOptions input cwd (input.runAs.getD []) ++
      containerEnvOptions (containerEnv input)
  | .netnsHelper => ["unshare", "--user", "--map-root-user", "--net", "--"]
  | .constrainedLocal => []

/-- A command as it follows the launcher's command line; a container engine takes the program as the
value of an option and its image after it. -/
def placed (input : PlanInput) (inner : List Text) : List Text :=
  if input.backend.isContainer then
    ("--entrypoint" : Text) :: inner.take 1 ++ imageOf input :: inner.drop 1
  else inner

/-- Everything in a plan that is not its command line. -/
def SandboxPlan.frame (p : SandboxPlan) : SandboxPlan := { p with program := [], args := [] }

/-- What a plan is apart from its command line. -/
def frameOf (input : PlanInput) (cwd : Text) : SandboxPlan :=
  if input.backend.isContainer then
    let name := ("jitgen-" : Text) ++ input.instance'
    { (directPlan input cwd [] []) with
      env := containerEnv input
      containerName := some name
      cleanup := some [engineOf input, "kill", "--signal=KILL", name]
      newProcessGroup := false }
  else directPlan input cwd [] []

private theorem planContainer_ok {input : PlanInput} {cwd : Text} {inner : List Text}
    {q : SandboxPlan} (h : planContainer input cwd inner = .ok q) :
    isDigestPinned (imageOf input) = true ∧ ∃ entrypoint rest, inner = entrypoint :: rest ∧
      q.argv = engineOf input :: (engineOptions input cwd (input.runAs.getD []) ++
        containerEnvOptions (containerEnv input) ++
        ("--entrypoint" : Text) :: entrypoint :: imageOf input :: rest) ∧
      q.frame = { (directPlan input cwd [] []) with
        env := containerEnv input
        containerName := some (("jitgen-" : Text) ++ input.instance')
        cleanup := some [engineOf input, "kill", "--signal=KILL",
          ("jitgen-" : Text) ++ input.instance']
        newProcessGroup := false } := by
  unfold planContainer at h
  cases himage : input.policy.dockerImage with
  | none => simp [himage] at h
  | some image =>
    cases hpinned : isDigestPinned image with
    | false => simp [himage, hpinned] at h
    | true =>
      cases huser : input.runAs with
      | none => simp [himage, hpinned, huser] at h
      | some user =>
        simp only [himage, hpinned, huser, Bool.not_true, Bool.false_eq_true, if_false] at h
        split at h
        · cases h
        · split at h
          · cases h
          · cases inner with
            | nil => cases h
            | cons entrypoint rest =>
              cases h
              have hi : imageOf input = image := by simp [imageOf, himage]
              refine ⟨by rw [hi]; exact hpinned, entrypoint, rest, rfl, ?_, rfl⟩
              rw [hi]
              rfl

/-- A plan is the launcher's command line and the command, in a frame of its own. -/
theorem planFor_ok {input : PlanInput} {cwd : Text} {inner : List Text} {q : SandboxPlan}
    (hne : inner ≠ []) (h : planFor input cwd inner = .ok q) :
    q.argv = launcherArgv input cwd ++ placed input inner ∧ q.frame = frameOf input cwd := by
  have hcontainer : planContainer input cwd inner = .ok q → input.backend.isContainer = true →
      (input.backend = .docker ∨ input.backend = .podman) →
      q.argv = launcherArgv input cwd ++ placed input inner ∧ q.frame = frameOf input cwd := by
    intro hplan hkind hb
    obtain ⟨-, entrypoint, rest, rfl, hargv, hframe⟩ := planContainer_ok hplan
    rw [hargv, hframe]
    unfold placed frameOf
    rw [if_pos hkind, if_pos hkind]
    rcases hb with hb | hb <;> simp [launcherArgv, hb]
  unfold planFor at h
  cases hb : input.backend <;> simp only [hb] at h
  case docker => exact hcontainer h (by rw [hb]; rfl) (.inl hb)
  case podman => exact hcontainer h (by rw [hb]; rfl) (.inr hb)
  case sandboxExec =>
    unfold planSandboxExec at h
    obtain ⟨profile, hprofile, h⟩ := bind_eq_ok.mp h
    cases h
    simp [SandboxPlan.argv, SandboxPlan.frame, directPlan, launcherArgv, placed, frameOf, hb,
      Backend.isContainer, profileOf, hprofile]
  case bwrap =>
    cases h
    simp [SandboxPlan.argv, SandboxPlan.frame, directPlan, planBwrap, launcherArgv, placed, frameOf,
      hb, Backend.isContainer]
  case firejail =>
    cases h
    simp [SandboxPlan.argv, SandboxPlan.frame, directPlan, planFirejail, launcherArgv, placed,
      frameOf, hb, Backend.isContainer]
  case netnsHelper =>
    cases h
    simp [SandboxPlan.argv, SandboxPlan.frame, directPlan, planNetnsHelper, launcherArgv, placed,
      frameOf, hb, Backend.isContainer]
  case constrainedLocal =>
    cases h
    obtain ⟨program, args, rfl⟩ := List.exists_cons_of_ne_nil hne
    simp [SandboxPlan.argv, SandboxPlan.frame, directPlan, planLocal, launcherArgv, placed, frameOf,
      hb, Backend.isContainer]

theorem innerArgv_ne_nil {req : SpawnRequest} {policy : ExecPolicy} {inner : List Text}
    (h : innerArgv req policy = .ok inner) : inner ≠ [] := by
  unfold innerArgv at h
  split at h
  · cases h
  · split at h
    · split at h
      · cases h
      · cases h
        simp
    · split at h
      · cases h
      · cases h
        simp

theorem buildPlan_ok {input : PlanInput} {p : SandboxPlan} (h : buildPlan input = .ok p) :
    ∃ cwd inner q, validatedCwd input.overlayRoot input.req.cwdRel = .ok cwd ∧
      innerArgv input.req input.policy = .ok inner ∧
      planFor input cwd (carried input ++ inner) = .ok q ∧
      p = { q with
        buildSignal := input.req.buildSignal
        expectsStartSentinel := input.backend.usesPreamble } := by
  unfold buildPlan at h
  obtain ⟨_, -, h⟩ := bind_eq_ok.mp h
  obtain ⟨cwd, hcwd, h⟩ := bind_eq_ok.mp h
  obtain ⟨inner, hinner, h⟩ := bind_eq_ok.mp h
  have hempty : ¬ inner.isEmpty = true := by simpa using innerArgv_ne_nil hinner
  simp only [if_neg hempty] at h
  obtain ⟨q, hq, h⟩ := bind_eq_ok.mp h
  refine ⟨cwd, inner, q, hcwd, hinner, ?_, (Except.ok.inj h).symm⟩
  unfold carried
  split at hq <;> rename_i hpre
  · rw [if_pos hpre]
    exact hq
  · rw [if_neg hpre]
    exact hq

private theorem buildPlan_argv {input : PlanInput} {p : SandboxPlan} (h : buildPlan input = .ok p) :
    ∃ cwd inner, validatedCwd input.overlayRoot input.req.cwdRel = .ok cwd ∧
      innerArgv input.req input.policy = .ok inner ∧
      p.argv = launcherArgv input cwd ++ placed input (carried input ++ inner) ∧
      p.frame = { frameOf input cwd with
        buildSignal := input.req.buildSignal
        expectsStartSentinel := input.backend.usesPreamble } := by
  obtain ⟨cwd, inner, q, hcwd, hinner, hq, rfl⟩ := buildPlan_ok h
  have hne : carried input ++ inner ≠ [] := by simp [innerArgv_ne_nil hinner]
  obtain ⟨hargv, hframe⟩ := planFor_ok hne hq
  refine ⟨cwd, inner, hcwd, hinner, hargv, ?_⟩
  rw [← hframe]
  rfl

private theorem innerArgv_direct {req : SpawnRequest} {policy : ExecPolicy} {inner : List Text}
    (hshell : req.shell = false) (h : innerArgv req policy = .ok inner) :
    inner = req.program :: req.args ∧ req.program ≠ [] ∧ req.program.startsWith "-" = false := by
  unfold innerArgv at h
  split at h
  · cases h
  · rename_i hempty
    rw [hshell] at h
    simp only [Bool.false_eq_true, if_false] at h
    split at h
    · cases h
    · rename_i hdash
      exact ⟨(Except.ok.inj h).symm, by simpa using hempty, by simpa using hdash⟩

private theorem placed_command (input : PlanInput) (program : Text) (args : List Text) :
    placed input (carried input ++ program :: args) =
      if input.backend.isContainer then
        ("--entrypoint" : Text) :: program :: imageOf input :: args
      else carried input ++ program :: args := by
  unfold placed carried
  cases input.backend <;> simp [Backend.isContainer, Backend.usesPreamble]

private theorem pushComponents_inside {comps : List UnixPath.Component} {path cwd : Text}
    (habs : UnixPath.isAbsolute path = true)
    (hnames : ∀ s, UnixPath.Component.normal s ∈ comps → UnixPath.PlainName s)
    (h : pushComponents path comps = some cwd) :
    ∃ names : List Text, UnixPath.components cwd = UnixPath.components path ++ names.map .normal := by
  induction comps generalizing path with
  | nil =>
    cases h
    exact ⟨[], by simp⟩
  | cons comp comps ih =>
    have htail : ∀ s, UnixPath.Component.normal s ∈ comps → UnixPath.PlainName s :=
      fun s hs => hnames s (List.mem_cons_of_mem _ hs)
    cases comp with
    | normal s =>
      have hs : UnixPath.PlainName s := hnames s List.mem_cons_self
      obtain ⟨names, hcwd⟩ := ih (UnixPath.isAbsolute_push habs s) htail h
      exact ⟨s :: names, by rw [hcwd, UnixPath.components_push habs hs]; simp⟩
    | curDir => exact ih habs htail h
    | rootDir => cases h
    | parentDir => cases h

private theorem validatedCwd_inside {overlayRoot cwdRel cwd : Text}
    (h : validatedCwd overlayRoot cwdRel = .ok cwd) :
    ∃ names : List Text, UnixPath.components cwd = UnixPath.components overlayRoot ++ names.map .normal := by
  unfold validatedCwd at h
  split at h
  · cases h
  · rename_i habs
    split at h
    · cases h
    · split at h
      · rename_i path hpath
        cases h
        exact pushComponents_inside (by simpa using habs) (fun s hs => UnixPath.plainName_of_mem hs)
          hpath
      · cases h

/-- A launcher's command line followed by the command of a request; a container engine takes the
program as the value of an option and the image after it. -/
def commandLine (launcher : List Text) : Option Text → SpawnRequest → List Text
  | none, r => launcher ++ r.program :: r.args
  | some image, r => launcher ++ ("--entrypoint" : Text) :: r.program :: image :: r.args

/-- The policy's image, for the tiers that run one. -/
def planImage (input : PlanInput) : Option Text :=
  if input.backend.isContainer then input.policy.dockerImage else none

/-- What precedes the command: the launcher with its options, and the preamble. -/
def leadArgv (input : PlanInput) (cwd : Text) : List Text := launcherArgv input cwd ++ carried input

private theorem carried_container {input : PlanInput} (h : input.backend.isContainer = true) :
    carried input = [] := by
  unfold carried
  cases hb : input.backend <;> simp_all [Backend.isContainer, Backend.usesPreamble]

private theorem image_pinned {input : PlanInput} {cwd : Text} {inner : List Text} {q : SandboxPlan}
    (hkind : input.backend.isContainer = true) (h : planFor input cwd inner = .ok q) :
    isDigestPinned (imageOf input) = true := by
  unfold planFor at h
  cases hb : input.backend <;> simp only [hb] at h hkind
  case docker => exact (planContainer_ok h).1
  case podman => exact (planContainer_ok h).1
  all_goals cases hkind

private theorem policy_image {input : PlanInput} {cwd : Text} {inner : List Text} {q : SandboxPlan}
    (hkind : input.backend.isContainer = true) (h : planFor input cwd inner = .ok q) :
    input.policy.dockerImage = some (imageOf input) := by
  have hpinned := image_pinned hkind h
  unfold imageOf at hpinned ⊢
  cases himage : input.policy.dockerImage with
  | some image => rfl
  | none =>
    rw [himage] at hpinned
    revert hpinned
    decide

private theorem buildPlan_direct {input : PlanInput} {p : SandboxPlan} (h : buildPlan input = .ok p)
    (hshell : input.req.shell = false) :
    ∃ cwd, validatedCwd input.overlayRoot input.req.cwdRel = .ok cwd ∧
      p.argv = commandLine (leadArgv input cwd) (planImage input) input.req ∧
      p.frame = { frameOf input cwd with
        buildSignal := input.req.buildSignal
        expectsStartSentinel := input.backend.usesPreamble } ∧
      input.req.program ≠ [] ∧ input.req.program.startsWith "-" = false := by
  obtain ⟨cwd, inner, hcwd, hinner, hargv, hframe⟩ := buildPlan_argv h
  obtain ⟨_, _, _, -, -, hq, -⟩ := buildPlan_ok h
  obtain ⟨rfl, hempty, hdash⟩ := innerArgv_direct hshell hinner
  refine ⟨cwd, hcwd, ?_, hframe, hempty, hdash⟩
  rw [hargv, placed_command]
  unfold planImage
  split <;> rename_i hkind
  · rw [policy_image hkind hq]
    simp [commandLine, leadArgv, carried_container hkind]
  · simp [commandLine, leadArgv]

private theorem leadArgv_ne_nil (input : PlanInput) (cwd : Text) : leadArgv input cwd ≠ [] := by
  unfold leadArgv launcherArgv carried
  cases input.backend <;> simp [Backend.usesPreamble, preamble]

private theorem leadArgv_closed {input : PlanInput} (h : input.backend.isContainer = false)
    (cwd : Text) :
    (leadArgv input cwd).getLast? = some ("--" : Text) ∨
      preamble input.policy.limits <:+ leadArgv input cwd := by
  cases hpre : input.backend.usesPreamble with
  | true =>
    right
    unfold leadArgv carried
    rw [if_pos hpre]
    exact List.suffix_append _ _
  | false =>
    left
    unfold leadArgv carried launcherArgv
    cases hb : input.backend <;> simp_all [Backend.isContainer, Backend.usesPreamble]
    rw [← List.cons_append, List.getLast?_concat]

private theorem program_of_argv {p : SandboxPlan} {lead rest : List Text} (hne : lead ≠ [])
    (h : p.argv = lead ++ rest) : lead.head? = some p.program := by
  obtain ⟨a, lead, rfl⟩ := List.exists_cons_of_ne_nil hne
  rw [SandboxPlan.argv, List.cons_append] at h
  simp [(List.cons.inj h).1]

private theorem commandLine_lead (lead : List Text) (image : Option Text) (r : SpawnRequest) :
    ∃ rest, commandLine lead image r = lead ++ rest := by
  cases image with
  | none => exact ⟨_, rfl⟩
  | some image => exact ⟨_, rfl⟩

/-- The preamble stands in front of a command on the tiers that use it only. -/
private theorem carries_iff {input : PlanInput} {p : SandboxPlan} {inner : List Text}
    (h : buildPlan input = .ok p) (hinner : innerArgv input.req input.policy = .ok inner) :
    p.expectsStartSentinel = true ↔
      ∃ launcher, p.argv = launcher ++ preamble input.policy.limits ++ inner := by
  obtain ⟨cwd, inner', q, -, hinner', hq, rfl⟩ := buildPlan_ok h
  obtain rfl : inner = inner' := Except.ok.inj (hinner.symm.trans hinner')
  obtain ⟨hargv, -⟩ := planFor_ok (by simp [innerArgv_ne_nil hinner]) hq
  change input.backend.usesPreamble = true ↔ ∃ launcher, q.argv = _
  rw [hargv]
  constructor
  · intro hpre
    have hkind : ¬ input.backend.isContainer = true := by
      cases hb : input.backend <;> simp_all [Backend.isContainer, Backend.usesPreamble]
    refine ⟨launcherArgv input cwd, ?_⟩
    simp [placed, if_neg hkind, carried, if_pos hpre]
  · intro ⟨launcher, heq⟩
    by_contra hpre
    have hcarried : carried input = [] := if_neg hpre
    rw [hcarried, List.nil_append] at heq
    cases hkind : input.backend.isContainer with
    | true =>
      obtain ⟨program, args, rfl⟩ := List.exists_cons_of_ne_nil (innerArgv_ne_nil hinner)
      have hends : (launcherArgv input cwd ++ [("--entrypoint" : Text), program]) ++ [imageOf input] =
          (launcher ++ preamble input.policy.limits) ++ [program] := by
        apply (List.append_left_inj args).mp
        simpa [placed, hkind] using heq
      obtain ⟨hfront, himage⟩ := List.append_inj' hends rfl
      have hprogram : program = ("jitgen-sandbox" : Text) := by
        have hlast := congrArg List.getLast? hfront
        simpa [preamble] using hlast
      have hpinned := image_pinned hkind hq
      rw [List.singleton_inj.mp himage, hprogram] at hpinned
      revert hpinned
      decide
    | false =>
      have hends : launcherArgv input cwd = launcher ++ preamble input.policy.limits := by
        apply (List.append_left_inj inner).mp
        simpa [placed, hkind] using heq
      have hlast := congrArg List.getLast? hends
      unfold launcherArgv at hlast
      cases hb : input.backend <;> simp only [hb, Backend.isContainer, Backend.usesPreamble,
        not_true_eq_false, Bool.true_eq_false] at hkind hpre hlast
      revert hlast
      rw [List.getLast?_concat]
      simp [preamble]

/-- Two direct requests for one place are planned alike but for the command and the hint. -/
private theorem direct_plans_alike {input : PlanInput} {r₁ r₂ : SpawnRequest} {p₁ p₂ : SandboxPlan}
    {cwd : Text} (hs₁ : r₁.shell = false) (hs₂ : r₂.shell = false)
    (hcwd₁ : validatedCwd input.overlayRoot r₁.cwdRel = .ok cwd)
    (hcwd₂ : validatedCwd input.overlayRoot r₂.cwdRel = .ok cwd)
    (h₁ : buildPlan { input with req := r₁ } = .ok p₁)
    (h₂ : buildPlan { input with req := r₂ } = .ok p₂) :
    p₁ = { p₂ with args := p₁.args, buildSignal := p₁.buildSignal } ∧
      p₁.buildSignal = r₁.buildSignal ∧ p₂.buildSignal = r₂.buildSignal ∧
      p₁.argv = commandLine (leadArgv input cwd) (planImage input) r₁ ∧
      p₂.argv = commandLine (leadArgv input cwd) (planImage input) r₂ := by
  obtain ⟨cwd₁, hplace₁, hargv₁, hframe₁, -⟩ := buildPlan_direct h₁ hs₁
  obtain ⟨cwd₂, hplace₂, hargv₂, hframe₂, -⟩ := buildPlan_direct h₂ hs₂
  obtain rfl : cwd = cwd₁ := Except.ok.inj (hcwd₁.symm.trans hplace₁)
  obtain rfl : cwd = cwd₂ := Except.ok.inj (hcwd₂.symm.trans hplace₂)
  change p₁.argv = commandLine (leadArgv input cwd) (planImage input) r₁ at hargv₁
  change p₂.argv = commandLine (leadArgv input cwd) (planImage input) r₂ at hargv₂
  have hprogram : p₁.program = p₂.program := by
    obtain ⟨rest₁, hrest₁⟩ := commandLine_lead (leadArgv input cwd) (planImage input) r₁
    obtain ⟨rest₂, hrest₂⟩ := commandLine_lead (leadArgv input cwd) (planImage input) r₂
    have hhead₁ := program_of_argv (leadArgv_ne_nil input cwd) (hargv₁.trans hrest₁)
    have hhead₂ := program_of_argv (leadArgv_ne_nil input cwd) (hargv₂.trans hrest₂)
    exact Option.some.inj (hhead₁.symm.trans hhead₂)
  have hsignal₁ : p₁.buildSignal = r₁.buildSignal := congrArg SandboxPlan.buildSignal hframe₁
  have hsignal₂ : p₂.buildSignal = r₂.buildSignal := congrArg SandboxPlan.buildSignal hframe₂
  refine ⟨?_, hsignal₁, hsignal₂, hargv₁, hargv₂⟩
  have hframe : p₁.frame = { p₂.frame with buildSignal := p₁.buildSignal } := by
    rw [hframe₁, hframe₂, hsignal₁]
    rfl
  obtain ⟨backend₁, program₁, args₁⟩ := p₁
  obtain ⟨backend₂, program₂, args₂⟩ := p₂
  simp only [SandboxPlan.frame, SandboxPlan.mk.injEq] at hframe hprogram ⊢
  simp_all

/-- Each place has one command line of the launcher, and the plans of two direct requests for it
differ in the command behind that and in the hints they carry; a container runs the image of the
policy, a shell has to be allowed, the working directory is below the root, and a sentinel is
expected where the preamble stands. -/
theorem plans_differ_in_command (input : PlanInput) :
    (∀ place, ∃ lead,
      (input.backend.isContainer = false → lead.getLast? = some ("--" : Text) ∨
        preamble input.policy.limits <:+ lead) ∧
      ∀ r₁ r₂ p₁ p₂, r₁.shell = false → r₂.shell = false → r₁.cwdRel = place → r₂.cwdRel = place →
        buildPlan { input with req := r₁ } = .ok p₁ → buildPlan { input with req := r₂ } = .ok p₂ →
        p₁ = { p₂ with args := p₁.args, buildSignal := p₁.buildSignal } ∧
        p₁.buildSignal = r₁.buildSignal ∧ p₂.buildSignal = r₂.buildSignal ∧
        (input.backend.isContainer = true → ∃ image, input.policy.dockerImage = some image ∧
          p₁.argv = commandLine lead (some image) r₁ ∧ p₂.argv = commandLine lead (some image) r₂) ∧
        (input.backend.isContainer = false →
          p₁.argv = commandLine lead none r₁ ∧ p₂.argv = commandLine lead none r₂)) ∧
    (∀ r, r.shell = true → input.policy.shellAllowed = false →
      ∃ e, buildPlan { input with req := r } = .error e) ∧
    (∀ r p, buildPlan { input with req := r } = .ok p →
      (r.shell = false → r.program ≠ [] ∧ r.program.startsWith "-" = false) ∧
      (∃ names : List Text, UnixPath.components p.cwd =
        UnixPath.components input.overlayRoot ++ names.map .normal) ∧
      ∀ inner, innerArgv r input.policy = .ok inner →
        (p.expectsStartSentinel = true ↔
          ∃ launcher, p.argv = launcher ++ preamble input.policy.limits ++ inner)) := by
  refine ⟨?_, ?_, ?_⟩
  · intro place
    cases hcwd : validatedCwd input.overlayRoot place with
    | error e =>
      refine ⟨leadArgv input [], fun hkind => leadArgv_closed hkind _, ?_⟩
      rintro r₁ r₂ p₁ p₂ hs₁ hs₂ rfl hplace h₁ h₂
      obtain ⟨cwd, hcwd', -⟩ := buildPlan_direct h₁ hs₁
      cases hcwd.symm.trans hcwd'
    | ok cwd =>
      refine ⟨leadArgv input cwd, fun hkind => leadArgv_closed hkind _, ?_⟩
      rintro r₁ r₂ p₁ p₂ hs₁ hs₂ rfl hplace h₁ h₂
      obtain ⟨hsame, hsignal₁, hsignal₂, hargv₁, hargv₂⟩ :=
        direct_plans_alike hs₁ hs₂ hcwd (by rw [hplace, hcwd]) h₁ h₂
      refine ⟨hsame, hsignal₁, hsignal₂, fun hkind => ?_, fun hkind => ?_⟩
      · obtain ⟨_, _, _, -, -, hq, -⟩ := buildPlan_ok h₁
        have himage := @policy_image { input with req := r₁ } _ _ _ hkind hq
        refine ⟨imageOf input, himage, ?_⟩
        rw [planImage, if_pos hkind, himage] at hargv₁ hargv₂
        exact ⟨hargv₁, hargv₂⟩
      · rw [planImage, hkind] at hargv₁ hargv₂
        exact ⟨hargv₁, hargv₂⟩
  · intro r hshell hrefused
    cases h : buildPlan { input with req := r } with
    | error e => exact ⟨e, rfl⟩
    | ok p =>
      obtain ⟨_, inner, _, -, hinner, -⟩ := buildPlan_ok h
      unfold innerArgv at hinner
      simp only [hshell, hrefused, Bool.not_false, if_true] at hinner
      split at hinner <;> cases hinner
  · intro r p h
    refine ⟨fun hshell => ?_, ?_, fun inner hinner =>
      @carries_iff { input with req := r } p inner h hinner⟩
    · obtain ⟨_, -, -, -, hprogram⟩ := buildPlan_direct h hshell
      exact hprogram
    · obtain ⟨cwd, inner, hcwd, -, -, hframe⟩ := buildPlan_argv h
      have hplace : p.cwd = cwd := by
        have hc := congrArg SandboxPlan.cwd hframe
        unfold frameOf at hc
        split at hc
        · exact hc
        · exact hc
      rw [hplace]
      exact validatedCwd_inside hcwd

def testRequest (args : List Text) (signal : BuildSignal) : SpawnRequest :=
  ⟨"cargo", args, "", false, signal⟩

/-- An input of a tier, with the request left open. -/
def tierInput (backend : Backend) (req : SpawnRequest) : PlanInput where
  backend := backend
  req := req
  overlayRoot := "/o"
  syntheticTmp := "/o/.jitgen-tmp"
  env := [("PATH", "/usr/bin")]
  policy := .fromTrusted .default
  instance' := "r1"
  runAs := none

theorem bwrap_plans_differ_in_command :
    ∃ p₁ p₂, buildPlan (tierInput .bwrap (testRequest ["test"] .default)) = .ok p₁ ∧
      buildPlan (tierInput .bwrap (testRequest ["--help", ";"] .default)) = .ok p₂ ∧
      p₁ = { p₂ with args := p₁.args, buildSignal := p₁.buildSignal } ∧
      p₁.expectsStartSentinel = true ∧
      ∃ e, buildPlan (tierInput .bwrap { testRequest [] .default with shell := true }) =
        .error e := by
  obtain ⟨hplaces, hshell, -⟩ := plans_differ_in_command
    (tierInput .bwrap (testRequest ["test"] .default))
  obtain ⟨lead, -, htwo⟩ := hplaces ""
  have hp₁ : ∃ p, buildPlan (tierInput .bwrap (testRequest ["test"] .default)) = .ok p :=
    ⟨_, rfl⟩
  have hp₂ : ∃ p, buildPlan (tierInput .bwrap (testRequest ["--help", ";"] .default)) = .ok p :=
    ⟨_, rfl⟩
  obtain ⟨p₁, hp₁⟩ := hp₁
  obtain ⟨p₂, hp₂⟩ := hp₂
  have hsame := (htwo (testRequest ["test"] .default) (testRequest ["--help", ";"] .default)
    p₁ p₂ rfl rfl rfl rfl hp₁ hp₂).1
  have hexpects : p₁.expectsStartSentinel = true := by
    cases hp₁
    rfl
  exact ⟨p₁, p₂, hp₁, hp₂, hsame, hexpects, hshell { testRequest [] .default with shell := true }
    rfl rfl⟩

/-- Requests that ask for one command with different hints give plans that differ. -/
theorem hints_differ_in_plans :
    ∃ p₁ p₂, buildPlan (tierInput .bwrap (testRequest ["test"] .default)) = .ok p₁ ∧
      buildPlan (tierInput .bwrap (testRequest ["test"] ⟨[101], []⟩)) = .ok p₂ ∧
      p₁.argv = p₂.argv ∧ p₁ ≠ p₂ := by
  refine ⟨_, _, rfl, rfl, rfl, ?_⟩
  intro heq
  have hsignal := congrArg SandboxPlan.buildSignal heq
  revert hsignal
  decide

end Jitgen
