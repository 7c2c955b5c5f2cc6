import Jitgen.Adapters.Dedup

/-!
# Detection and ownership

An adapter is detected by manifests and by the exact spelling of an extension after a dot; it owns a
path by the lowercased text after the last dot, or by the whole path when there is no dot.
-/

namespace Jitgen

open Text

private theorem extension_append {e : Text} (he : '.' ∉ e) (s : Text) :
    fileExtension (s ++ '.' :: e) = e := by
  rw [fileExtension, List.splitOn_append_cons_self, List.splitOn_eq_singleton he]
  simp

private theorem dot_suffix_iff {e : Text} (he : '.' ∉ e) (path : Text) :
    ('.' :: e) <:+ path ↔ '.' ∈ path ∧ fileExtension path = e := by
  constructor
  · intro h
    obtain ⟨s, rfl⟩ := h
    exact ⟨by simp, extension_append he s⟩
  · intro h
    obtain ⟨hdot, hext⟩ := h
    obtain ⟨t, s, hrev, ht⟩ := List.eq_append_cons_of_mem (List.mem_reverse.mpr hdot)
    have hpath : path = s.reverse ++ '.' :: t.reverse := by
      simpa using congrArg List.reverse hrev
    have htail : t.reverse = e := by
      rw [← hext, hpath, extension_append (by simpa using ht)]
    exact ⟨s.reverse, by rw [hpath, htail]⟩

private theorem hasExt_iff {repo : RepoSnapshot} {ext : Text} :
    repo.hasExt ext = true ↔ ∃ p ∈ repo.paths, ('.' :: ext) <:+ p := by
  simp [RepoSnapshot.hasExt, endsWith, List.any_eq_true]

private theorem has_iff {repo : RepoSnapshot} {path : Text} :
    repo.has path = true ↔ path ∈ repo.paths := by
  simp [RepoSnapshot.has]

/-- The manifests and extensions of an adapter. The files it owns have one of the extensions, in any
case, or are Python stubs. -/
structure DetectionRule where
  adapter : LanguageAdapter
  manifests : List Text
  exts : List Text
  detected_iff : ∀ repo, (adapter.detect repo).detected = true ↔
    (∃ m ∈ manifests, repo.has m = true) ∨ ∃ e ∈ exts, repo.hasExt e = true
  owned_ext : ∀ p, (adapter.owns p).isSome →
    toAsciiLower (fileExtension p) ∈ exts ∨ toAsciiLower (fileExtension p) = ("pyi" : Text)
  exts_plain : ∀ e ∈ exts, '.' ∉ e ∧ toAsciiLower e = e ∧ e ≠ ("pyi" : Text)

private theorem ofEvidence_detected (ev : List Text) :
    (DetectionResult.ofEvidence ev).detected = true ↔ ev ≠ [] := by
  cases ev <;> simp [DetectionResult.ofEvidence]

private theorem evidenceIf_ne_nil (c : Bool) (ev : Text) : evidenceIf c ev ≠ [] ↔ c = true := by
  cases c <;> simp [evidenceIf]

private theorem append_ne_nil_iff {α : Type} (l l' : List α) : l ++ l' ≠ [] ↔ l ≠ [] ∨ l' ≠ [] := by
  rw [ne_eq, List.append_eq_nil_iff, not_and_or]

private theorem mem_of_fromPath {p : Text} {l : Lang} (h : Lang.fromPath p = some l) :
    (toAsciiLower (fileExtension p), l) ∈ extensionLangs := by
  obtain ⟨before, after, heq, -⟩ := List.lookup_eq_some_iff.mp h
  rw [heq]
  simp

private theorem ownsLang_isSome {lang : Lang} {p : Text} (h : (ownsLang lang p).isSome) :
    (toAsciiLower (fileExtension p), lang) ∈ extensionLangs := by
  unfold ownsLang at h
  by_cases hlang : Lang.fromPath p = some lang
  · exact mem_of_fromPath hlang
  · simp [hlang] at h

private theorem ext_of_lang (langs : List Lang) {exts : List Text}
    (hexts : ∀ x ∈ extensionLangs, x.2 ∈ langs → x.1 ∈ exts ∨ x.1 = ("pyi" : Text)) {e : Text}
    {lang : Lang} (hlang : lang ∈ langs) (h : (e, lang) ∈ extensionLangs) :
    e ∈ exts ∨ e = ("pyi" : Text) := hexts _ h hlang

def rustRule : DetectionRule where
  adapter := rustAdapter
  manifests := ["Cargo.toml"]
  exts := ["rs"]
  detected_iff := by
    intro repo
    show (DetectionResult.ofEvidence _).detected = true ↔ _
    rw [ofEvidence_detected]
    simp only [append_ne_nil_iff, evidenceIf_ne_nil,
      List.mem_singleton, exists_eq_left]
  owned_ext := fun p h =>
    ext_of_lang [.rust] (by decide) (by decide) (ownsLang_isSome h)
  exts_plain := by decide

def pythonRule : DetectionRule where
  adapter := pythonAdapter
  manifests := pythonMarkers
  exts := ["py"]
  detected_iff := by
    intro repo
    show (DetectionResult.ofEvidence _).detected = true ↔ _
    rw [ofEvidence_detected]
    simp only [append_ne_nil_iff, evidenceIf_ne_nil, ne_eq,
      List.filter_eq_nil_iff, not_forall, not_not, exists_prop, List.mem_singleton, exists_eq_left]
  owned_ext := fun p h =>
    ext_of_lang [.python] (by decide) (by decide) (ownsLang_isSome h)
  exts_plain := by decide

def javaRule : DetectionRule where
  adapter := javaAdapter
  manifests := ["pom.xml", "build.gradle", "build.gradle.kts"]
  exts := ["java"]
  detected_iff := by
    intro repo
    show (DetectionResult.ofEvidence _).detected = true ↔ _
    rw [ofEvidence_detected]
    simp only [append_ne_nil_iff, evidenceIf_ne_nil,
      Bool.or_eq_true, List.mem_cons, List.not_mem_nil, or_false, exists_eq_or_imp, exists_eq_left,
      or_assoc]
  owned_ext := fun p h =>
    ext_of_lang [.java] (by decide) (by decide) (ownsLang_isSome h)
  exts_plain := by decide

def typeScriptRule : DetectionRule where
  adapter := typeScriptAdapter
  manifests := ["package.json", "tsconfig.json"]
  exts := typeScriptExts
  detected_iff := by
    intro repo
    show (DetectionResult.ofEvidence _).detected = true ↔ _
    rw [ofEvidence_detected]
    simp only [append_ne_nil_iff, evidenceIf_ne_nil,
      List.any_eq_true, List.mem_cons, List.not_mem_nil, or_false, exists_eq_or_imp, exists_eq_left]
  owned_ext := by
    intro p h
    have hlang : ∃ lang ∈ [Lang.typeScript, .tsx], Lang.fromPath p = some lang := by
      unfold typeScriptAdapter at h
      cases hfrom : Lang.fromPath p with
      | none => simp [hfrom] at h
      | some lang => cases lang <;> simp [hfrom] at h ⊢
    obtain ⟨lang, hmem, hfrom⟩ := hlang
    exact ext_of_lang [.typeScript, .tsx] (by decide) hmem (mem_of_fromPath hfrom)
  exts_plain := by decide

def detectionRules : List DetectionRule := [rustRule, pythonRule, javaRule, typeScriptRule]

private theorem detectionRules_adapters (config : RepoConfig) :
    detectionRules.map (·.adapter) ++ [genericAdapter config] =
      AdapterRegistry.withBuiltins config := rfl

/-- A dot, and after the last one a lowercase extension other than that of a stub. -/
def PlainSpelling (path : Text) : Prop :=
  '.' ∈ path ∧ toAsciiLower (fileExtension path) = fileExtension path ∧
    fileExtension path ≠ ("pyi" : Text)

namespace DetectionRule

variable {r : DetectionRule}

private theorem owned_suffix_iff {path : Text} (howns : (r.adapter.owns path).isSome) :
    (∃ e ∈ r.exts, ('.' :: e) <:+ path) ↔ PlainSpelling path := by
  constructor
  · intro h
    obtain ⟨e, he, hsuffix⟩ := h
    obtain ⟨hnodot, hlower, hstub⟩ := r.exts_plain e he
    obtain ⟨hdot, hext⟩ := (dot_suffix_iff hnodot path).mp hsuffix
    exact ⟨hdot, by rw [hext, hlower], by rwa [hext]⟩
  · intro h
    obtain ⟨hdot, hlower, hstub⟩ := h
    have hmem : fileExtension path ∈ r.exts := by
      rcases r.owned_ext path howns with hmem | hpyi
      · rwa [hlower] at hmem
      · rw [hlower] at hpyi
        exact absurd hpyi hstub
    exact ⟨_, hmem, (dot_suffix_iff (r.exts_plain _ hmem).1 path).mpr ⟨hdot, rfl⟩⟩

/-- A manifest, or another path with an extension of the adapter. -/
def MarkedBeside (r : DetectionRule) (repo : RepoSnapshot) (path : Text) : Prop :=
  (∃ m ∈ r.manifests, m ∈ repo.paths) ∨
    ∃ p ∈ repo.paths, p ≠ path ∧ ∃ e ∈ r.exts, ('.' :: e) <:+ p

private theorem detected_iff_marked {repo : RepoSnapshot} {path : Text} (hpath : path ∈ repo.paths)
    (howns : (r.adapter.owns path).isSome) :
    (r.adapter.detect repo).detected = true ↔ PlainSpelling path ∨ r.MarkedBeside repo path := by
  rw [r.detected_iff, ← owned_suffix_iff howns]
  simp only [hasExt_iff, has_iff, MarkedBeside]
  constructor
  · intro h
    rcases h with hmanifest | ⟨e, he, p, hp, hsuffix⟩
    · exact .inr (.inl hmanifest)
    · by_cases hsame : p = path
      · exact .inl ⟨e, he, hsame ▸ hsuffix⟩
      · exact .inr (.inr ⟨p, hp, hsame, e, he, hsuffix⟩)
  · intro h
    rcases h with ⟨e, he, hsuffix⟩ | hmanifest | ⟨p, hp, -, e, he, hsuffix⟩
    · exact .inr ⟨e, he, path, hpath, hsuffix⟩
    · exact .inl hmanifest
    · exact .inr ⟨e, he, p, hp, hsuffix⟩

end DetectionRule

/-- A changed file with head lines, in the snapshot, that a built-in adapter would own. -/
structure OwnedChange (r : DetectionRule) (repo : RepoSnapshot) (changes : ChangeSet)
    (fc : FileChange) : Prop where
  rule : r ∈ detectionRules
  changed : fc ∈ changes.files
  present : fc.kind ≠ .deleted
  listed : fc.path ∈ repo.paths
  hunks : fc.hunks ≠ []
  owned : (r.adapter.owns fc.path).isSome

private theorem OwnedChange.registered {r : DetectionRule} {repo : RepoSnapshot}
    {changes : ChangeSet} {fc : FileChange} (h : OwnedChange r repo changes fc)
    (config : RepoConfig) :
    r.adapter ∈ AdapterRegistry.withBuiltins config := by
  rw [← detectionRules_adapters]
  exact List.mem_append_left _ (List.mem_map_of_mem h.rule)

private theorem mem_detect_iff {config : RepoConfig} {repo : RepoSnapshot} {a : LanguageAdapter}
    (ha : a ∈ AdapterRegistry.withBuiltins config) :
    a.id ∈ ((AdapterRegistry.withBuiltins config).detect repo).map Prod.fst ↔
      (a.detect repo).detected = true := by
  rw [AdapterRegistry.detect]
  constructor
  · intro h
    obtain ⟨d, hd, hid⟩ := List.mem_map.mp h
    obtain ⟨hmem, hdetected⟩ := List.mem_filter.mp hd
    obtain ⟨b, hb, rfl⟩ := List.mem_map.mp hmem
    have hids := AdapterRegistry.withBuiltins_ids_nodup config
    have hab := AdapterRegistry.adapter_of_mem hids ha
    rw [← show b.id = a.id from hid, AdapterRegistry.adapter_of_mem hids hb] at hab
    exact Option.some.inj hab ▸ hdetected
  · intro h
    have hmem : (a.id, a.detect repo) ∈
        ((AdapterRegistry.withBuiltins config).map fun a => (a.id, a.detect repo)).filter
          (·.2.detected) := List.mem_filter.mpr ⟨List.mem_map.mpr ⟨a, ha, rfl⟩, h⟩
    exact List.mem_map.mpr ⟨_, hmem, rfl⟩

section

variable [TreeSitter]

/-- The adapter is detected, and the file has a target. -/
def Targeted (config : RepoConfig) (r : DetectionRule) (repo : RepoSnapshot) (changes : ChangeSet)
    (fc : FileChange) : Prop :=
  r.adapter.id ∈ ((AdapterRegistry.withBuiltins config).detect repo).map Prod.fst ∧
    ∃ t ∈ (AdapterRegistry.withBuiltins config).analyze repo changes, t.path = fc.path

theorem exists_target {config : RepoConfig} {a : LanguageAdapter} {repo : RepoSnapshot}
    {changes : ChangeSet} {fc : FileChange} (ha : a ∈ AdapterRegistry.withBuiltins config)
    (hdetected : (a.detect repo).detected = true) (hchanged : fc ∈ changes.files)
    (hpresent : fc.kind ≠ .deleted) (hhunks : fc.hunks ≠ []) (howned : (a.owns fc.path).isSome) :
    ∃ t ∈ (AdapterRegistry.withBuiltins config).analyze repo changes, t.path = fc.path := by
  have hemits : ∃ t ∈ a.analyzeChanges repo changes, t.path = fc.path :=
    exists_emitted_iff.mpr ⟨howned, fc, hchanged, rfl, hpresent, hhunks⟩
  have hsome : (AdapterRegistry.emitterOf config repo changes fc.path).isSome := by
    rw [AdapterRegistry.emitterOf, List.find?_isSome]
    refine ⟨a, List.mem_filter.mpr ⟨ha, hdetected⟩, ?_⟩
    simpa using hemits
  obtain ⟨b, hb⟩ := Option.isSome_iff_exists.mp hsome
  obtain ⟨t, ht, hpath, -⟩ := AdapterRegistry.exists_target_of_emitter hb
  exact ⟨t, ht, hpath⟩

/-- An owned change is targeted exactly if its path is spelled plainly, or something else in the
snapshot shows the adapter. -/
theorem targeted_iff {config : RepoConfig} {r : DetectionRule} {repo : RepoSnapshot}
    {changes : ChangeSet} {fc : FileChange} (h : OwnedChange r repo changes fc) :
    Targeted config r repo changes fc ↔
      PlainSpelling fc.path ∨ r.MarkedBeside repo fc.path := by
  rw [Targeted, mem_detect_iff (h.registered config),
    ← DetectionRule.detected_iff_marked h.listed h.owned]
  exact and_iff_left_of_imp fun hdetected =>
    exists_target (h.registered config) hdetected h.changed h.present h.hunks h.owned

end

def upperChange : FileChange := ⟨"src/Foo.RS", none, .modified, [oneLine]⟩

private theorem upperChange_owned :
    OwnedChange rustRule (.new ["src/Foo.RS"] []) ⟨"base", "head", [upperChange]⟩ upperChange :=
  ⟨by simp [detectionRules], List.mem_singleton.mpr rfl, by decide, by decide, by decide, by decide⟩

/-- Alone in a repository it shows no adapter. -/
theorem upper_case_skipped : ¬ ∀ [TreeSitter] (config : RepoConfig) (r : DetectionRule)
    (repo : RepoSnapshot) (changes : ChangeSet) (fc : FileChange),
    OwnedChange r repo changes fc → Targeted config r repo changes fc := by
  intro h
  let _ := noTrees
  have hdetected := (h .default _ _ _ _ upperChange_owned).1
  rw [mem_detect_iff (upperChange_owned.registered _)] at hdetected
  exact absurd hdetected (by decide)

/-- With a manifest beside it, the file is targeted. -/
theorem upper_case_with_manifest :
    letI := noTrees
    Targeted .default rustRule (.new ["src/Foo.RS", "Cargo.toml"] [])
      ⟨"base", "head", [upperChange]⟩ upperChange := by
  let _ := noTrees
  refine (targeted_iff ⟨by simp [detectionRules], List.mem_singleton.mpr rfl, by decide, by decide,
    by decide, by decide⟩).mpr (.inr (.inl ⟨("Cargo.toml" : Text), ?_, ?_⟩))
  · exact List.mem_singleton.mpr rfl
  · decide

end Jitgen
