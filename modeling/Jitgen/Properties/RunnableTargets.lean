import Jitgen.Adapters.TestCommand

/-!
# Which targets can be run

The configured adapter is detected from its id and its extensions alone. Its template is only read
when a target is to be run.
-/

namespace Jitgen

open Text RunnableAdapter

/-- A changed file that no detected built-in adapter owns, but the configured one does. -/
structure LeftToGeneric (config : RepoConfig) (repo : RepoSnapshot) (fc : FileChange) : Prop where
  configured : config.id.isSome
  present : fc.kind ≠ .deleted
  changed : fc.hunks ≠ []
  owned : GenericAdapter.owns config fc.path = true
  not_builtin : ∀ a ∈ builtins, (a.detect repo).detected = true → a.owns fc.path = none

private theorem generic_owns_isSome (config : RepoConfig) (path : Text) :
    ((genericAdapter config).owns path).isSome = GenericAdapter.owns config path := by
  unfold genericAdapter
  by_cases howns : GenericAdapter.owns config path = true <;> simp [howns]

private theorem generic_detected_of_owns {config : RepoConfig} (repo : RepoSnapshot) {path : Text}
    (howns : GenericAdapter.owns config path = true) :
    ((genericAdapter config).detect repo).detected = config.id.isSome := by
  have hextensions : config.extensions.isEmpty = false := by
    unfold GenericAdapter.owns at howns
    cases hext : config.extensions with
    | nil => simp [hext] at howns
    | cons e es => rfl
  cases hid : config.id <;>
    simp [genericAdapter, DetectionResult.ofEvidence, evidenceIf, hid, hextensions]

private theorem generic_notMem_builtins {config : RepoConfig} {a : RunnableAdapter}
    (ha : a ∈ builtins) :
    a.id ≠ GenericAdapter.adapterId config := by
  intro heq
  have hreserved : ∀ b ∈ builtins, b.id ∈ reservedBuiltinIds := by
    intro b hb
    have hids : builtins.map (·.id) = reservedBuiltinIds := rfl
    rw [← hids]
    exact List.mem_map_of_mem hb
  exact GenericAdapter.adapterId_notReserved config (heq ▸ hreserved a ha)

section

variable [TreeSitter]

private theorem emitterOf_eq (config : RepoConfig) (repo : RepoSnapshot) (changes : ChangeSet)
    (path : Text) : AdapterRegistry.emitterOf config repo changes path =
      (((builtins.map (·.toLanguageAdapter)).filter fun a => (a.detect repo).detected).find?
        fun a => (a.analyzeChanges repo changes).any (·.path = path)).or
      (([genericAdapter config].filter fun a => (a.detect repo).detected).find?
        fun a => (a.analyzeChanges repo changes).any (·.path = path)) := by
  rw [← List.find?_append, ← List.filter_append]
  rfl

private theorem any_emitted_iff {a : LanguageAdapter} {repo : RepoSnapshot} {changes : ChangeSet}
    {path : Text} : (a.analyzeChanges repo changes).any (·.path = path) = true ↔
      (a.owns path).isSome ∧
        ∃ fc ∈ changes.files, fc.path = path ∧ fc.kind ≠ .deleted ∧ fc.hunks ≠ [] := by
  rw [← @exists_emitted_iff _ _ repo, List.any_eq_true]
  simp only [decide_eq_true_eq]

/-- A path comes to the configured adapter when one of its changes is left to it. -/
private theorem emitter_generic_iff {config : RepoConfig} {repo : RepoSnapshot}
    {changes : ChangeSet} {path : Text} :
    AdapterRegistry.emitterOf config repo changes path = some (genericAdapter config) ↔
      ∃ fc ∈ changes.files, fc.path = path ∧ LeftToGeneric config repo fc := by
  rw [emitterOf_eq]
  constructor
  · intro h
    rcases Option.or_eq_some_iff.mp h with hbuiltin | ⟨hnone, hgeneric⟩
    · have hmem := List.mem_of_mem_filter (List.mem_of_find?_eq_some hbuiltin)
      obtain ⟨a, ha, heq⟩ := List.mem_map.mp hmem
      exact absurd (congrArg LanguageAdapter.id heq) (generic_notMem_builtins ha)
    · have hdetected := (List.mem_filter.mp (List.mem_of_find?_eq_some hgeneric)).2
      obtain ⟨howns, fc, hfc, hpath, hkind, hhunks⟩ :=
        any_emitted_iff.mp (List.find?_eq_some_iff_append.mp hgeneric).1
      rw [generic_owns_isSome] at howns
      have hid := (generic_detected_of_owns repo howns).symm.trans hdetected
      refine ⟨fc, hfc, hpath, hid, hkind, hhunks, hpath ▸ howns, fun a ha hdet => ?_⟩
      have hsilent := List.find?_eq_none.mp hnone a.toLanguageAdapter
        (List.mem_filter.mpr ⟨List.mem_map_of_mem ha, hdet⟩)
      rw [any_emitted_iff] at hsilent
      by_contra hsome
      rw [← ne_eq, Option.ne_none_iff_isSome, hpath] at hsome
      exact hsilent ⟨hsome, fc, hfc, hpath, hkind, hhunks⟩
  · intro h
    obtain ⟨fc, hfc, hpath, hleft⟩ := h
    have howns : GenericAdapter.owns config path = true := hpath ▸ hleft.owned
    have hnone : (((builtins.map (·.toLanguageAdapter)).filter
        fun a => (a.detect repo).detected).find?
          fun a => (a.analyzeChanges repo changes).any (·.path = path)) = none := by
      rw [List.find?_eq_none]
      intro a ha hany
      obtain ⟨hmem, hdet⟩ := List.mem_filter.mp ha
      obtain ⟨b, hb, rfl⟩ := List.mem_map.mp hmem
      have hnot := hleft.not_builtin b hb hdet
      have hsome := (any_emitted_iff.mp hany).1
      rw [← hpath, hnot] at hsome
      cases hsome
    have hdetected : ((genericAdapter config).detect repo).detected = true :=
      (generic_detected_of_owns repo howns).trans hleft.configured
    have hany : ((genericAdapter config).analyzeChanges repo changes).any (·.path = path) = true :=
      any_emitted_iff.mpr ⟨(generic_owns_isSome config path).trans howns, fc, hfc, hpath,
        hleft.present, hleft.changed⟩
    have hfilter : ([genericAdapter config].filter fun a => (a.detect repo).detected) =
        [genericAdapter config] := by
      simp [hdetected]
    rw [hnone, Option.none_or, hfilter, List.find?_cons, hany]

/-- Dispatched to the adapter that emitted it, which has a program for it. -/
def Runnable (config : RepoConfig) (repo : RepoSnapshot) (changes : ChangeSet) (t : Target) :
    Prop :=
  ∃ a, dispatch config t.adapter = some a ∧
    t.content ∈ (a.analyzeChanges repo changes).map Target.content ∧ a.Runs repo t

private theorem dispatch_emitter {config : RepoConfig} {repo : RepoSnapshot} {changes : ChangeSet}
    {t : Target} (ht : t ∈ (AdapterRegistry.withBuiltins config).analyze repo changes) :
    ∃ a ∈ registry config, dispatch config t.adapter = some a ∧ t.adapter = a.id ∧
      AdapterRegistry.emitterOf config repo changes t.path = some a.toLanguageAdapter ∧
      t.content ∈ (a.analyzeChanges repo changes).map Target.content := by
  obtain ⟨a, hemitter, hid, hcontent⟩ := AdapterRegistry.emitter_of_mem ht
  have hmem : a ∈ AdapterRegistry.withBuiltins config :=
    List.mem_of_mem_filter (List.mem_of_find?_eq_some hemitter)
  rw [← registry_adapters] at hmem
  obtain ⟨b, hb, rfl⟩ := List.mem_map.mp hmem
  exact ⟨b, hb, hid ▸ dispatch_of_mem hb, hid.symm, hemitter, hcontent⟩

/-- Every listed target can be run exactly if the template has a program for every file that is left
to the configured adapter. -/
theorem targets_runnable_iff (config : RepoConfig) (repo : RepoSnapshot) (changes : ChangeSet) :
    (∀ t ∈ (AdapterRegistry.withBuiltins config).analyze repo changes,
        Runnable config repo changes t) ↔
      ∀ fc ∈ changes.files, LeftToGeneric config repo fc → StartsWithProgram config fc.path := by
  constructor
  · intro hrun fc hfc hleft
    have hemitter := emitter_generic_iff.mpr ⟨fc, hfc, rfl, hleft⟩
    obtain ⟨t, ht, hpath, hid⟩ := AdapterRegistry.exists_target_of_emitter hemitter
    obtain ⟨a, hdispatch, -, hruns⟩ := hrun t ht
    have hid : t.adapter = (generic config).id := hid
    have hgeneric : dispatch config t.adapter = some (generic config) := by
      rw [hid]
      exact dispatch_of_mem (by simp [registry])
    rw [Option.some.inj (hdispatch.symm.trans hgeneric), generic_runs_iff config repo hid] at hruns
    exact hpath ▸ hruns
  · intro hstarts t ht
    obtain ⟨a, ha, hdispatch, hid, hemitter, hcontent⟩ := dispatch_emitter ht
    refine ⟨a, hdispatch, hcontent, ?_⟩
    rcases List.mem_append.mp ha with hbuiltin | hgeneric
    · exact builtin_runs hbuiltin repo hid
    · rw [List.mem_singleton] at hgeneric
      subst hgeneric
      obtain ⟨fc, hfc, hpath, hleft⟩ := emitter_generic_iff.mp hemitter
      exact (generic_runs_iff config repo hid).mpr (hpath ▸ hstarts fc hfc hleft)

end

/-- An id and an extension, but no template. -/
def withoutArgv : RepoConfig := { RepoConfig.default with id := some "go", extensions := ["go"] }

def goChange : ChangeSet :=
  ⟨"base", "head", [⟨"main.go", none, .modified, [oneLine]⟩]⟩

/-- The target of the changed file has no command. -/
theorem target_without_command : ¬ ∀ [TreeSitter] (config : RepoConfig) (repo : RepoSnapshot)
    (changes : ChangeSet), ∀ t ∈ (AdapterRegistry.withBuiltins config).analyze repo changes,
      Runnable config repo changes t := by
  intro h
  let _ := noTrees
  have hlisted : ∃ t ∈ (AdapterRegistry.withBuiltins withoutArgv).analyze
      (.new ["main.go"] []) goChange, t.adapter = ("go" : Text) := by decide +kernel
  obtain ⟨t, ht, hid⟩ := hlisted
  obtain ⟨a, hdispatch, -, hruns⟩ := h withoutArgv _ _ t ht
  have hgeneric : dispatch withoutArgv t.adapter = some (generic withoutArgv) := by
    rw [hid]
    exact dispatch_of_mem (a := generic withoutArgv) (by simp [registry])
  rw [Option.some.inj (hdispatch.symm.trans hgeneric), generic_runs_iff withoutArgv _ hid] at hruns
  obtain ⟨tok, rest, hargv, -⟩ := hruns
  cases hargv

end Jitgen
