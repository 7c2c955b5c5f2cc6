import Jitgen.Sandbox.Env

/-!
# Law of the sandbox environment

Which variables a child can see, and where the paths in them lead. The names are always screened;
whether a path may lead into the overlay or the state root depends on how it is spelled.
-/

namespace Jitgen

open Text

theorem EnvMap.lookup_cons (n v : Text) (env : EnvMap) (k : Text) :
    List.lookup k ((n, v) :: env) = if k = n then some v else env.lookup k := by
  rw [List.lookup_cons]
  by_cases h : k = n
  · simp [h]
  · have hbeq : (k == n) = false := beq_eq_false_iff_ne.mpr h
    rw [hbeq, if_neg h]

theorem EnvMap.lookup_insert (name value : Text) (env : EnvMap) (k : Text) :
    (EnvMap.insert name value env).lookup k = if k = name then some value else env.lookup k := by
  induction env with
  | nil => simp [EnvMap.insert]
  | cons kv env ih =>
    obtain ⟨n, v⟩ := kv
    rw [EnvMap.insert]
    by_cases hn : n = name
    · rw [if_pos hn, EnvMap.lookup_cons, EnvMap.lookup_cons, hn]
      split_ifs <;> rfl
    · rw [if_neg hn]
      split
      · exact EnvMap.lookup_cons name value _ k
      · by_cases hk : k = n
        · subst hk
          simp [hn]
        · simp [EnvMap.lookup_cons, hk, ih]

private theorem EnvMap.mem_insert {name value : Text} {env : EnvMap} {kv : Text × Text}
    (h : kv ∈ EnvMap.insert name value env) : kv = (name, value) ∨ kv ∈ env := by
  induction env with
  | nil => simpa [EnvMap.insert] using h
  | cons x env ih =>
    rw [EnvMap.insert] at h
    split at h
    · exact (List.mem_cons.mp h).imp id (List.mem_cons_of_mem _)
    · split at h
      · exact List.mem_cons.mp h
      · rcases List.mem_cons.mp h with h | h
        · exact .inr (by rw [h]; exact List.mem_cons_self)
        · exact (ih h).imp id (List.mem_cons_of_mem _)

/-- The sandbox's own names and those of the baseline. -/
def ownNames : List Text := managed ++ baselinePassthrough

theorem ownNames_upper : ∀ n ∈ ownNames, isDenied n = false ∧ toAsciiUpper n ∈ ownNames := by
  decide +kernel

private theorem extraRefusal_none {name : Text} (h : extraRefusal name = none) :
    isDenied name = false ∧ toAsciiUpper name ∉ ownNames := by
  unfold extraRefusal at h
  split at h
  · cases h
  · rename_i hdenied
    refine ⟨by simpa using hdenied, ?_⟩
    simp only [ownNames, List.mem_append]
    by_cases hown : (managed.contains (toAsciiUpper name) ||
        baselinePassthrough.contains (toAsciiUpper name)) = true
    · simp only [hown, if_true, reduceCtorEq] at h
    · simpa using hown

theorem setRefusal_none {name value : Text} (h : setRefusal name value = none) :
    extraRefusal name = none ∧ valueIsUnsafe name value = false := by
  unfold setRefusal at h
  split at h
  · cases h
  · rename_i hname
    refine ⟨hname, ?_⟩
    split at h
    · cases h
    · split at h
      · cases h
      · rename_i hvalue
        simpa using hvalue

theorem not_own_of_extra {name : Text} (h : extraRefusal name = none) : name ∉ ownNames :=
  fun hown => (extraRefusal_none h).2 (ownNames_upper name hown).2

section

variable {parent : EnvMap} {policy : ExecPolicy} {home tmp overlayRoot stateRoot : Text}

/-- A variable of the map is one of the sandbox's own or an extra that was accepted. -/
def Sourced (policy : ExecPolicy) (name : Text) : Prop :=
  name ∈ ownNames ∨ (name ∈ policy.envAllowlistExtra ∧ extraRefusal name = none) ∨
    ∃ value, (name, value) ∈ policy.envSetExtra ∧ setRefusal name value = none

private theorem baseline_sourced {names : List Text} (hnames : ∀ n ∈ names, n ∈ ownNames)
    {env : EnvMap} (henv : ∀ kv ∈ env, kv.1 ∈ ownNames) :
    ∀ kv ∈ names.foldl (passBaseline parent overlayRoot stateRoot) env, kv.1 ∈ ownNames := by
  induction names generalizing env with
  | nil => exact henv
  | cons n names ih =>
    obtain ⟨hn, hrest⟩ := List.forall_mem_cons.mp hnames
    refine ih hrest ?_
    intro kv hkv
    unfold passBaseline at hkv
    split at hkv
    · exact henv kv hkv
    · split at hkv
      · split at hkv
        · rename_i hpath
          rcases EnvMap.mem_insert hkv with h | h
          · rw [h]
            exact hpath ▸ hn
          · exact henv kv h
        · rcases EnvMap.mem_insert hkv with h | h
          · rw [h]
            exact hn
          · exact henv kv h
      · exact henv kv hkv

private theorem extras_sourced {names : List Text}
    (hnames : ∀ n ∈ names, n ∈ policy.envAllowlistExtra) {r : EnvMap × List Text}
    (hr : ∀ kv ∈ r.1, Sourced policy kv.1) :
    ∀ kv ∈ (names.foldl (passExtra parent) r).1, Sourced policy kv.1 := by
  induction names generalizing r with
  | nil => exact hr
  | cons n names ih =>
    obtain ⟨hn, hrest⟩ := List.forall_mem_cons.mp hnames
    refine ih hrest ?_
    intro kv hkv
    unfold passExtra at hkv
    split at hkv
    · exact hr kv hkv
    · rename_i hok
      split at hkv
      · rcases EnvMap.mem_insert hkv with h | h
        · rw [h]
          exact .inr (.inl ⟨hn, hok⟩)
        · exact hr kv h
      · exact hr kv hkv

private theorem sets_sourced {sets : List (Text × Text)}
    (hsets : ∀ kv ∈ sets, kv ∈ policy.envSetExtra) {r : EnvMap × List Text}
    (hr : ∀ kv ∈ r.1, Sourced policy kv.1) :
    ∀ kv ∈ (sets.foldl setExtra r).1, Sourced policy kv.1 := by
  induction sets generalizing r with
  | nil => exact hr
  | cons x sets ih =>
    obtain ⟨hx, hrest⟩ := List.forall_mem_cons.mp hsets
    refine ih hrest ?_
    intro kv hkv
    unfold setExtra at hkv
    split at hkv
    · exact hr kv hkv
    · rename_i hok
      rcases EnvMap.mem_insert hkv with h | h
      · rw [h]
        exact .inr (.inr ⟨x.2, hx, hok⟩)
      · exact hr kv h

/-- The sandbox's own part of the map. -/
def ownEnv (parent : EnvMap) (home tmp overlayRoot stateRoot : Text) : EnvMap :=
  EnvMap.insert "TERM" "dumb" (EnvMap.insert "TMPDIR" tmp (EnvMap.insert "HOME" home
    (baselinePassthrough.foldl (passBaseline parent overlayRoot stateRoot) [])))

theorem ownEnv_sourced :
    ∀ kv ∈ ownEnv parent home tmp overlayRoot stateRoot, kv.1 ∈ ownNames := by
  have hbaseline : ∀ kv ∈ baselinePassthrough.foldl (passBaseline parent overlayRoot stateRoot) [],
      kv.1 ∈ ownNames :=
    baseline_sourced (fun n hn => List.mem_append_right _ hn) (by simp)
  have hterm : ("TERM" : Text) ∈ ownNames := by decide
  have htmp : ("TMPDIR" : Text) ∈ ownNames := by decide
  have hhome : ("HOME" : Text) ∈ ownNames := by decide
  intro kv hkv
  rcases EnvMap.mem_insert hkv with rfl | h
  · exact hterm
  · rcases EnvMap.mem_insert h with rfl | h
    · exact htmp
    · rcases EnvMap.mem_insert h with rfl | h
      · exact hhome
      · exact hbaseline kv h

private theorem buildEnv_sourced :
    ∀ kv ∈ (buildEnv parent policy home tmp overlayRoot stateRoot).1, Sourced policy kv.1 :=
  sets_sourced (fun _ h => h) (extras_sourced (fun _ h => h)
    fun kv hkv => .inl (ownEnv_sourced kv hkv))

private theorem lookup_extras {name : Text} (hname : name ∈ ownNames) (names : List Text)
    (r : EnvMap × List Text) :
    (names.foldl (passExtra parent) r).1.lookup name = r.1.lookup name := by
  induction names generalizing r with
  | nil => rfl
  | cons n names ih =>
    rw [List.foldl_cons, ih]
    unfold passExtra
    split
    · rfl
    · rename_i hok
      split
      · rw [EnvMap.lookup_insert, if_neg]
        rintro rfl
        exact not_own_of_extra hok hname
      · rfl

private theorem lookup_sets {name : Text} (hname : name ∈ ownNames) (sets : List (Text × Text))
    (r : EnvMap × List Text) :
    (sets.foldl setExtra r).1.lookup name = r.1.lookup name := by
  induction sets generalizing r with
  | nil => rfl
  | cons x sets ih =>
    rw [List.foldl_cons, ih]
    unfold setExtra
    split
    · rfl
    · rename_i hok
      rw [EnvMap.lookup_insert, if_neg]
      rintro rfl
      exact not_own_of_extra (setRefusal_none hok).1 hname

theorem lookup_buildEnv {name : Text} (hname : name ∈ ownNames) :
    (buildEnv parent policy home tmp overlayRoot stateRoot).1.lookup name =
      (ownEnv parent home tmp overlayRoot stateRoot).lookup name := by
  unfold buildEnv
  rw [lookup_sets hname, lookup_extras hname]
  rfl

private theorem lookup_baseline_path {names : List Text} (hnames : ("PATH" : Text) ∉ names)
    (env : EnvMap) :
    (names.foldl (passBaseline parent overlayRoot stateRoot) env).lookup ("PATH" : Text) =
      env.lookup ("PATH" : Text) := by
  induction names generalizing env with
  | nil => rfl
  | cons n names ih =>
    rw [List.mem_cons, not_or] at hnames
    rw [List.foldl_cons, ih hnames.2]
    unfold passBaseline
    simp only [if_neg (Ne.symm hnames.1)]
    split
    · rfl
    · split
      · rw [EnvMap.lookup_insert, if_neg hnames.1]
      · rfl

private theorem lookup_path :
    (buildEnv parent policy home tmp overlayRoot stateRoot).1.lookup ("PATH" : Text) =
      (parent.lookup ("PATH" : Text)).map fun value => filterPath value overlayRoot stateRoot := by
  have hfirst : (passBaseline parent overlayRoot stateRoot [] "PATH").lookup ("PATH" : Text) =
      (parent.lookup ("PATH" : Text)).map fun value => filterPath value overlayRoot stateRoot := by
    have hown : ("PATH" : Text) ∈ ownNames := by decide
    have hallowed : isDenied "PATH" = false := (ownNames_upper _ hown).1
    unfold passBaseline
    rw [hallowed]
    cases parent.lookup ("PATH" : Text) with
    | none => rfl
    | some value => simp [EnvMap.lookup_insert]
  rw [lookup_buildEnv (by decide)]
  unfold ownEnv
  rw [EnvMap.lookup_insert, if_neg (by decide), EnvMap.lookup_insert, if_neg (by decide),
    EnvMap.lookup_insert, if_neg (by decide), baselinePassthrough, List.foldl_cons,
    lookup_baseline_path (by decide), hfirst]

private theorem entries_filterPath (value overlayRoot stateRoot : Text) :
    (filterPath value overlayRoot stateRoot).splitOn ':' =
      if (value.splitOn ':').filter (keepsEntry overlayRoot stateRoot) = [] then
        fallbackPath.splitOn ':'
      else (value.splitOn ':').filter (keepsEntry overlayRoot stateRoot) := by
  unfold filterPath
  by_cases hkept : (value.splitOn ':').filter (keepsEntry overlayRoot stateRoot) = []
  · rw [if_pos hkept, hkept]
    simp only [List.isEmpty_nil, if_true]
  · rw [if_neg hkept, if_neg (by simpa using hkept)]
    refine List.splitOn_intercalate ':' ?_ hkept
    intro e he
    exact UnixPath.notMem_of_mem_splitOn (List.mem_of_mem_filter he)

private theorem keepsEntry_iff {overlayRoot stateRoot e : Text} :
    keepsEntry overlayRoot stateRoot e = true ↔ e ≠ [] ∧ UnixPath.isAbsolute e = true ∧
      UnixPath.startsWith e overlayRoot = false ∧ UnixPath.startsWith e stateRoot = false := by
  unfold keepsEntry
  simp [and_assoc]

/-- A place in neither root. -/
def Apart (overlayRoot stateRoot path : Text) : Prop :=
  ¬ UnixPath.Inside overlayRoot path ∧ ¬ UnixPath.Inside stateRoot path

instance (overlayRoot stateRoot path : Text) : Decidable (Apart overlayRoot stateRoot path) :=
  inferInstanceAs (Decidable (_ ∧ _))

private theorem safe_component {component : Text} (h : componentIsSafeAbsolute component = true) :
    UnixPath.isAbsolute component = true ∧ ¬ UnixPath.Ascends component := by
  unfold componentIsSafeAbsolute at h
  simp only [Bool.and_eq_true] at h
  refine ⟨h.1.1, fun hup => ?_⟩
  have hall := List.all_eq_true.mp h.1.2 _ hup
  cases hall

/-- Variables of configuration whose value was accepted as paths. -/
def AcceptedPaths (policy : ExecPolicy) (kv : Text × Text) : Prop :=
  kv ∈ policy.envSetExtra ∧ setRefusal kv.1 kv.2 = none ∧
    toAsciiUpper kv.1 ∉ scalarValueAllowlist

private theorem safe_of_accepted {kv : Text × Text} (h : AcceptedPaths policy kv) :
    ∀ c ∈ kv.2.splitOn ':', componentIsSafeAbsolute c = true := by
  obtain ⟨-, hset, hscalar⟩ := h
  have hunsafe := (setRefusal_none hset).2
  unfold valueIsUnsafe at hunsafe
  rw [if_neg (by simpa using hscalar)] at hunsafe
  simpa using hunsafe

/-- What a child may see. -/
structure EnvLaw (policy : ExecPolicy) (home tmp overlayRoot stateRoot : Text) (env : EnvMap) :
    Prop where
  notDenied : ∀ kv ∈ env, isDenied kv.1 = false
  synthetic : env.lookup ("HOME" : Text) = some home ∧ env.lookup ("TMPDIR" : Text) = some tmp ∧
    env.lookup ("TERM" : Text) = some ("dumb" : Text)
  noAlias : ∀ kv ∈ env, toAsciiUpper kv.1 ∈ ownNames → kv.1 ∈ ownNames
  sourced : ∀ kv ∈ env, Sourced policy kv.1
  path : ∀ value, env.lookup ("PATH" : Text) = some value →
    ∀ e ∈ value.splitOn ':', Apart overlayRoot stateRoot e
  sets : ∀ kv, AcceptedPaths policy kv → ∀ c ∈ kv.2.splitOn ':', Apart overlayRoot stateRoot c

/-- Inputs on which no path of the environment leads into the roots. -/
structure PathsApart (parent : EnvMap) (policy : ExecPolicy) (overlayRoot stateRoot : Text) :
    Prop where
  /-- What the filter keeps of the parent's search path may lead into a root only where `..` stands
  in the entry or in a root. -/
  ascending : ∀ value, parent.lookup ("PATH" : Text) = some value → ∀ e ∈ value.splitOn ':',
    keepsEntry overlayRoot stateRoot e = true →
    UnixPath.Ascends e ∨ UnixPath.Ascends overlayRoot ∨ UnixPath.Ascends stateRoot →
    Apart overlayRoot stateRoot e
  /-- Where the filter keeps nothing, the roots hold no directory of the fallback. -/
  fallback : ∀ value, parent.lookup ("PATH" : Text) = some value →
    (∀ e ∈ value.splitOn ':', keepsEntry overlayRoot stateRoot e = false) →
    ∀ e ∈ fallbackPath.splitOn ':', Apart overlayRoot stateRoot e
  /-- No path set by configuration begins with the path of a root. -/
  sets : ∀ kv, AcceptedPaths policy kv → ∀ c ∈ kv.2.splitOn ':',
    ¬ UnixPath.StartsAt overlayRoot c ∧ ¬ UnixPath.StartsAt stateRoot c

private theorem kept_apart {e : Text} (hover : UnixPath.isAbsolute overlayRoot = true)
    (hstate : UnixPath.isAbsolute stateRoot = true)
    (hkeeps : keepsEntry overlayRoot stateRoot e = true)
    (hup : UnixPath.Ascends e ∨ UnixPath.Ascends overlayRoot ∨ UnixPath.Ascends stateRoot →
      Apart overlayRoot stateRoot e) : Apart overlayRoot stateRoot e := by
  by_cases h : UnixPath.Ascends e ∨ UnixPath.Ascends overlayRoot ∨ UnixPath.Ascends stateRoot
  · exact hup h
  · simp only [not_or] at h
    obtain ⟨-, habs, h₁, h₂⟩ := keepsEntry_iff.mp hkeeps
    constructor
    · rw [UnixPath.inside_iff_startsWith hover habs h.2.1 h.1, h₁]
      simp
    · rw [UnixPath.inside_iff_startsWith hstate habs h.2.2 h.1, h₂]
      simp

private theorem synthetic_buildEnv (parent : EnvMap) (policy : ExecPolicy)
    (home tmp overlayRoot stateRoot : Text) :
    let env := (buildEnv parent policy home tmp overlayRoot stateRoot).1
    env.lookup ("HOME" : Text) = some home ∧ env.lookup ("TMPDIR" : Text) = some tmp ∧
      env.lookup ("TERM" : Text) = some ("dumb" : Text) := by
  refine ⟨?_, ?_, ?_⟩
  · rw [lookup_buildEnv (by decide)]
    unfold ownEnv
    rw [EnvMap.lookup_insert, if_neg (by decide), EnvMap.lookup_insert, if_neg (by decide),
      EnvMap.lookup_insert, if_pos rfl]
  · rw [lookup_buildEnv (by decide)]
    unfold ownEnv
    rw [EnvMap.lookup_insert, if_neg (by decide), EnvMap.lookup_insert, if_pos rfl]
  · rw [lookup_buildEnv (by decide)]
    unfold ownEnv
    rw [EnvMap.lookup_insert, if_pos rfl]

private theorem not_denied_of_sourced {name : Text} (h : Sourced policy name) :
    isDenied name = false := by
  rcases h with hown | ⟨-, hextra⟩ | ⟨value, -, hset⟩
  · exact (ownNames_upper name hown).1
  · exact (extraRefusal_none hextra).1
  · exact (extraRefusal_none (setRefusal_none hset).1).1

private theorem own_of_sourced {name : Text} (h : Sourced policy name)
    (hupper : toAsciiUpper name ∈ ownNames) : name ∈ ownNames := by
  rcases h with hown | ⟨-, hextra⟩ | ⟨value, -, hset⟩
  · exact hown
  · exact absurd hupper (extraRefusal_none hextra).2
  · exact absurd hupper (extraRefusal_none (setRefusal_none hset).1).2

private theorem apart_of_accepted {kv : Text × Text} (hkv : AcceptedPaths policy kv) {c : Text}
    (hc : c ∈ kv.2.splitOn ':') :
    Apart overlayRoot stateRoot c ↔
      ¬ UnixPath.StartsAt overlayRoot c ∧ ¬ UnixPath.StartsAt stateRoot c := by
  have ⟨habs, hup⟩ := safe_component (safe_of_accepted hkv c hc)
  unfold Apart
  rw [UnixPath.inside_iff_startsAt overlayRoot habs hup,
    UnixPath.inside_iff_startsAt stateRoot habs hup]

/-- The environment obeys its law exactly when no `..` in the search path leads into a root, the
fallback lies outside, and no path of the configuration is in a root. -/
theorem env_law_iff (parent : EnvMap) (policy : ExecPolicy)
    {home tmp overlayRoot stateRoot : Text} (hover : UnixPath.isAbsolute overlayRoot = true)
    (hstate : UnixPath.isAbsolute stateRoot = true) :
    EnvLaw policy home tmp overlayRoot stateRoot
        (buildEnv parent policy home tmp overlayRoot stateRoot).1 ↔
      PathsApart parent policy overlayRoot stateRoot := by
  constructor
  · intro h
    have hpath : ∀ value, parent.lookup ("PATH" : Text) = some value →
        ∀ e ∈ (filterPath value overlayRoot stateRoot).splitOn ':', Apart overlayRoot stateRoot e := by
      intro value hvalue
      apply h.path
      rw [lookup_path, hvalue]
      rfl
    refine ⟨fun value hvalue e he hkeeps _ => ?_, fun value hvalue hnone e he => ?_,
      fun kv hkv c hc => ?_⟩
    · have hmem : e ∈ (value.splitOn ':').filter (keepsEntry overlayRoot stateRoot) :=
        List.mem_filter.mpr ⟨he, hkeeps⟩
      apply hpath value hvalue
      rw [entries_filterPath, if_neg (List.ne_nil_of_mem hmem)]
      exact hmem
    · have hempty : (value.splitOn ':').filter (keepsEntry overlayRoot stateRoot) = [] := by
        rw [List.filter_eq_nil_iff]
        intro e' he'
        simp [hnone e' he']
      apply hpath value hvalue
      rw [entries_filterPath, if_pos hempty]
      exact he
    · exact (apart_of_accepted hkv hc).mp (h.sets kv hkv c hc)
  · intro h
    refine
      { notDenied := fun kv hkv => not_denied_of_sourced (buildEnv_sourced kv hkv)
        synthetic := synthetic_buildEnv parent policy home tmp overlayRoot stateRoot
        noAlias := fun kv hkv hupper => own_of_sourced (buildEnv_sourced kv hkv) hupper
        sourced := buildEnv_sourced
        path := fun value hvalue e he => ?_
        sets := fun kv hkv c hc => (apart_of_accepted hkv hc).mpr (h.sets kv hkv c hc) }
    rw [lookup_path] at hvalue
    obtain ⟨whole, hwhole, rfl⟩ := Option.map_eq_some_iff.mp hvalue
    rw [entries_filterPath] at he
    split at he
    · rename_i hempty
      refine h.fallback whole hwhole (fun e' he' => ?_) e he
      simpa using List.filter_eq_nil_iff.mp hempty e' he'
    · obtain ⟨hmem, hkeeps⟩ := List.mem_filter.mp he
      exact kept_apart hover hstate hkeeps (h.ascending whole hwhole e hmem hkeeps)

end

def noExtras : ExecPolicy := .fromTrusted .default

theorem env_law_of_plain_path :
    EnvLaw noExtras "/overlay/.jitgen-home" "/overlay/.jitgen-tmp" "/overlay" "/state"
      (buildEnv [("PATH", "/usr/bin:.:/overlay/bin:/usr/../bin")] noExtras "/overlay/.jitgen-home"
        "/overlay/.jitgen-tmp" "/overlay" "/state").1 := by
  have hpaths : PathsApart [("PATH", "/usr/bin:.:/overlay/bin:/usr/../bin")] noExtras "/overlay"
      "/state" := by
    have hvalue : ∀ value : Text,
        List.lookup ("PATH" : Text) [("PATH", ("/usr/bin:.:/overlay/bin:/usr/../bin" : Text))] =
          some value → value = ("/usr/bin:.:/overlay/bin:/usr/../bin" : Text) :=
      fun value h => (Option.some.inj h).symm
    refine ⟨fun value h e he _ _ => ?_, fun value h hnone => ?_, fun kv hkv => ?_⟩
    · rw [hvalue value h] at he
      revert e
      decide +kernel
    · rw [hvalue value h] at hnone
      exact absurd (hnone "/usr/bin" (by decide)) (by decide)
    · exact absurd hkv.1 (by simp [noExtras, ExecPolicy.fromTrusted, TrustedConfig.default])
  exact (env_law_iff _ _ (by decide) (by decide)).mpr hpaths

/-- Configuration that sets a tool's home. -/
def toolHome (path : Text) : ExecPolicy := { noExtras with envSetExtra := [("RUSTUP_HOME", path)] }

/-- A search path leads into the overlay by way of `..`, and so does a path of the configuration. -/
theorem environment_leads_into_overlay :
    (¬ EnvLaw noExtras "/overlay/.jitgen-home" "/overlay/.jitgen-tmp" "/overlay" "/state"
      (buildEnv [("PATH", "/usr/../overlay/bin:/usr/bin")] noExtras "/overlay/.jitgen-home"
        "/overlay/.jitgen-tmp" "/overlay" "/state").1) ∧
    ¬ EnvLaw (toolHome "/overlay/tools") "/overlay/.jitgen-home" "/overlay/.jitgen-tmp" "/overlay"
      "/state" (buildEnv [] (toolHome "/overlay/tools") "/overlay/.jitgen-home"
        "/overlay/.jitgen-tmp" "/overlay" "/state").1 := by
  constructor
  · intro h
    have hpath : (buildEnv [("PATH", "/usr/../overlay/bin:/usr/bin")] noExtras
        "/overlay/.jitgen-home" "/overlay/.jitgen-tmp" "/overlay" "/state").1.lookup
          ("PATH" : Text) = some ("/usr/../overlay/bin:/usr/bin" : Text) := by decide +kernel
    have hin : UnixPath.Inside "/overlay" "/usr/../overlay/bin" := by decide +kernel
    exact (h.path _ hpath "/usr/../overlay/bin" (by decide)).1 hin
  · intro h
    have haccepted : AcceptedPaths (toolHome "/overlay/tools")
        (("RUSTUP_HOME" : Text), ("/overlay/tools" : Text)) := by
      refine ⟨List.mem_singleton.mpr rfl, ?_, ?_⟩ <;> decide +kernel
    have hin : UnixPath.Inside "/overlay" "/overlay/tools" := by decide +kernel
    exact (h.sets _ haccepted "/overlay/tools" (by decide)).1 hin

end Jitgen
