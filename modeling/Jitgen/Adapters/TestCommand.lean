import Jitgen.Adapters.Dedup

/-!
# Test commands

Each adapter derives an argument vector that runs the tests of its targets. The generic one fills in
the template of the repository.
-/

namespace Jitgen

open Text

structure TestCommand where
  program : Text
  args : List Text
  cwdRel : Text
  shell : Bool
  deriving DecidableEq

/-- A command rooted at the overlay, without a shell. -/
def TestCommand.argv (program : Text) (args : List Text) : TestCommand := ⟨program, args, [], false⟩

/-- A placeholder is substituted as a whole element. -/
def placeholder (name : Text) : Text := '\x7b' :: (name ++ ['\x7d'])

/-- Substitute in the template; the first substitution of a name counts. -/
def RepoConfig.renderArgv (config : RepoConfig) (subs : List (Text × Text)) : List Text :=
  config.testArgv.map fun tok =>
    ((subs.find? fun s => tok = placeholder s.1).map Prod.snd).getD tok

/-- An adapter with the command it derives for its targets. -/
structure RunnableAdapter extends LanguageAdapter where
  testCommand : RepoSnapshot → Target → Option TestCommand

namespace RunnableAdapter

def rust : RunnableAdapter where
  toLanguageAdapter := rustAdapter
  testCommand := fun _ t =>
    if t.adapter = rustAdapter.id then some (.argv "cargo" ["test", "--quiet"]) else none

def python : RunnableAdapter where
  toLanguageAdapter := pythonAdapter
  testCommand := fun _ t =>
    if t.adapter = pythonAdapter.id then some (.argv "python3" ["-m", "pytest", "-q"]) else none

def usesMaven (repo : RepoSnapshot) : Bool := repo.has "pom.xml"

def usesGradle (repo : RepoSnapshot) : Bool := repo.has "build.gradle" || repo.has "build.gradle.kts"

/-- The wrapper of the project stands before an installed build tool. -/
def java : RunnableAdapter where
  toLanguageAdapter := javaAdapter
  testCommand := fun repo t =>
    if t.adapter ≠ javaAdapter.id then none
    else if usesGradle repo && !usesMaven repo then
      some (.argv (if repo.has "gradlew" then "./gradlew" else "gradle") ["test"])
    else some (.argv (if repo.has "mvnw" then "./mvnw" else "mvn") ["-q", "test"])

def packageManager (repo : RepoSnapshot) : Text :=
  if repo.has "pnpm-lock.yaml" then "pnpm"
  else if repo.has "yarn.lock" then "yarn"
  else if repo.has "bun.lockb" || repo.has "bun.lock" then "bun"
  else "npm"

def typeScript : RunnableAdapter where
  toLanguageAdapter := typeScriptAdapter
  testCommand := fun repo t =>
    if t.adapter ≠ typeScriptAdapter.id then none
    else if packageManager repo = ("bun" : Text) then some (.argv "bun" ["run", "test"])
    else some (.argv (packageManager repo) ["test"])

def generic (config : RepoConfig) : RunnableAdapter where
  toLanguageAdapter := genericAdapter config
  testCommand := fun _ t =>
    if t.adapter ≠ GenericAdapter.adapterId config ∨ config.testArgv.isEmpty then none
    else
      match config.renderArgv [("target", t.path)] with
      | [] => none
      | program :: args => some (.argv program args)

def builtins : List RunnableAdapter := [rust, python, java, typeScript]

/-- The adapters of a registry. -/
def registry (config : RepoConfig) : List RunnableAdapter := builtins ++ [generic config]

theorem registry_adapters (config : RepoConfig) :
    (registry config).map (·.toLanguageAdapter) = AdapterRegistry.withBuiltins config := rfl

/-- The adapter that a target is dispatched to. -/
def dispatch (config : RepoConfig) (id : AdapterId) : Option RunnableAdapter :=
  (registry config).find? (·.id = id)

/-- It is the one that the registry looks up. -/
theorem dispatch_adapter (config : RepoConfig) (id : AdapterId) :
    (dispatch config id).map (·.toLanguageAdapter) =
      (AdapterRegistry.withBuiltins config).adapter id := by
  rw [← registry_adapters, AdapterRegistry.adapter, List.find?_map]
  rfl

theorem dispatch_of_mem {config : RepoConfig} {a : RunnableAdapter} (ha : a ∈ registry config) :
    dispatch config a.id = some a := by
  have hids : ((registry config).map (·.id)).Nodup := by
    have := AdapterRegistry.withBuiltins_ids_nodup config
    rwa [← registry_adapters, List.map_map] at this
  exact find?_of_nodup_map (fun a : RunnableAdapter => a.id) hids ha

/-- A command for the target, with a program. -/
def Runs (a : RunnableAdapter) (repo : RepoSnapshot) (t : Target) : Prop :=
  ∃ cmd, a.testCommand repo t = some cmd ∧ cmd.program ≠ []

/-- A built-in adapter has a program for each of its targets. -/
theorem builtin_runs {a : RunnableAdapter} (ha : a ∈ builtins) (repo : RepoSnapshot) {t : Target}
    (ht : t.adapter = a.id) : a.Runs repo t := by
  simp only [builtins, List.mem_cons, List.not_mem_nil, or_false] at ha
  rcases ha with rfl | rfl | rfl | rfl
  · exact ⟨_, if_pos ht, by decide⟩
  · exact ⟨_, if_pos ht, by decide⟩
  · have hprogram : ∀ (c : Bool) (s s' : Text), s ≠ [] → s' ≠ [] → (if c then s else s') ≠ [] := by
      intro c s s' hs hs'
      cases c
      · exact hs'
      · exact hs
    by_cases hgradle : (usesGradle repo && !usesMaven repo) = true
    · exact ⟨_, (if_neg (not_not.mpr ht)).trans (if_pos hgradle),
        hprogram _ _ _ (by decide) (by decide)⟩
    · exact ⟨_, (if_neg (not_not.mpr ht)).trans (if_neg hgradle),
        hprogram _ _ _ (by decide) (by decide)⟩
  · have hmanager : packageManager repo ≠ [] := by
      unfold packageManager
      split_ifs <;> decide
    by_cases hbun : packageManager repo = ("bun" : Text)
    · exact ⟨_, (if_neg (not_not.mpr ht)).trans (if_pos hbun), by decide⟩
    · exact ⟨_, (if_neg (not_not.mpr ht)).trans (if_neg hbun), hmanager⟩

/-- The template starts with a token that a program comes from. -/
def StartsWithProgram (config : RepoConfig) (path : Text) : Prop :=
  ∃ tok rest, config.testArgv = tok :: rest ∧ tok ≠ [] ∧
    (tok = placeholder "target" → path ≠ [])

theorem generic_runs_iff (config : RepoConfig) (repo : RepoSnapshot) {t : Target}
    (ht : t.adapter = (generic config).id) :
    (generic config).Runs repo t ↔ StartsWithProgram config t.path := by
  have hid : t.adapter = GenericAdapter.adapterId config := ht
  unfold Runs StartsWithProgram
  cases hargv : config.testArgv with
  | nil => simp [generic, hargv]
  | cons tok rest =>
    have hsub : config.renderArgv [("target", t.path)] =
        (if tok = placeholder "target" then t.path else tok) ::
          rest.map fun tok => if tok = placeholder "target" then t.path else tok := by
      have hrender : ∀ name tok : Text, ((([(name, t.path)] : List (Text × Text)).find?
          fun s => tok = placeholder s.1).map Prod.snd).getD tok =
          if tok = placeholder name then t.path else tok := by
        intro name tok
        by_cases htok : tok = placeholder name
        · rw [List.find?_cons_of_pos (by simpa using htok), if_pos htok]
          rfl
        · rw [List.find?_cons_of_neg (by simpa using htok), if_neg htok]
          rfl
      rw [RepoConfig.renderArgv, hargv, List.map_cons, hrender]
      exact congrArg _ (List.map_congr_left fun tok _ => hrender "target" tok)
    have hcommand : (generic config).testCommand repo t =
        some (.argv (if tok = placeholder "target" then t.path else tok)
          (rest.map fun tok => if tok = placeholder "target" then t.path else tok)) := by
      simp only [generic, hid, hargv, hsub, List.isEmpty_cons, Bool.false_eq_true, or_false,
        ne_eq, not_true_eq_false, if_false]
    have hplaceholder : placeholder "target" ≠ [] := by decide
    rw [hcommand]
    generalize placeholder "target" = target at hplaceholder ⊢
    by_cases htok : tok = target
    · simp [TestCommand.argv, htok, hplaceholder]
    · simp [TestCommand.argv, htok]

end RunnableAdapter

end Jitgen
