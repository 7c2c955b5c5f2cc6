import Jitgen.Properties.EnvLaw
import Mathlib.Data.List.Nodup

/-!
# Warnings about refused extras

The warnings that are shown before a run are those of every run. They name the entries that have no
effect of their own.
-/

namespace Jitgen

open Text

section

variable {parent : EnvMap} {policy : ExecPolicy} {home tmp overlayRoot stateRoot : Text}

/-- The warning for an entry of a list, if it is refused. -/
def allowWarning (name : Text) : Option Text :=
  (extraRefusal name).map (ignoredWarning "env_allowlist_extra" name)

def setWarning (kv : Text × Text) : Option Text :=
  (setRefusal kv.1 kv.2).map (ignoredWarning "env_set_extra" kv.1)

private theorem log_foldl {σ α β : Type} (log : σ → List β) {step : σ → α → σ}
    {entry : α → Option β} (hstep : ∀ s x, log (step s x) = log s ++ (entry x).toList) (xs : List α)
    (s : σ) :
    log (xs.foldl step s) = log s ++ xs.filterMap entry := by
  induction xs generalizing s with
  | nil => simp
  | cons x xs ih =>
    rw [List.foldl_cons, ih, hstep]
    cases hx : entry x <;> simp [hx]

private theorem extraRefusalWarnings_eq (policy : ExecPolicy) :
    extraRefusalWarnings policy =
      policy.envAllowlistExtra.filterMap allowWarning ++ policy.envSetExtra.filterMap setWarning := by
  unfold extraRefusalWarnings
  dsimp only
  apply (@log_foldl _ _ _ id _ setWarning (fun warnings kv => ?_) _ _).trans
  · congr 1
    apply @log_foldl _ _ _ id _ allowWarning
    intro warnings name
    unfold allowWarning
    cases extraRefusal name <;> simp
  · unfold setWarning
    cases setRefusal kv.1 kv.2 <;> simp

private theorem warnings_passExtra (names : List Text) (r : EnvMap × List Text) :
    (names.foldl (passExtra parent) r).2 = r.2 ++ names.filterMap allowWarning := by
  apply log_foldl Prod.snd
  intro r name
  unfold passExtra allowWarning
  cases extraRefusal name with
  | some reason => simp
  | none => cases parent.lookup name <;> simp

private theorem warnings_setExtra (sets : List (Text × Text)) (r : EnvMap × List Text) :
    (sets.foldl setExtra r).2 = r.2 ++ sets.filterMap setWarning := by
  apply log_foldl Prod.snd
  intro r kv
  unfold setExtra setWarning
  cases setRefusal kv.1 kv.2 <;> simp

private theorem extraRefusalWarnings_buildEnv :
    extraRefusalWarnings policy =
      (buildEnv parent policy home tmp overlayRoot stateRoot).2 := by
  unfold buildEnv
  rw [warnings_setExtra, warnings_passExtra, extraRefusalWarnings_eq, List.nil_append]

/-- Warnings name an entry of a list. -/
def Names (list : Text) (warnings : List Text) (name : Text) : Prop :=
  ∃ reason, ignoredWarning list name reason ∈ warnings

private theorem ignoredWarning_inj {list name name' reason reason' : Text}
    (h : ignoredWarning list name reason = ignoredWarning list name' reason') : name = name' := by
  unfold ignoredWarning at h
  simp only [List.append_assoc, List.append_cancel_left_eq] at h
  exact (debugQuoted_append_inj h).1

private theorem ignoredWarning_lists (name name' reason reason' : Text) :
    ignoredWarning "env_allowlist_extra" name reason ≠
      ignoredWarning "env_set_extra" name' reason' := by
  intro h
  have hstart := congrArg (List.take 13) h
  have hallow : (ignoredWarning "env_allowlist_extra" name reason).take 13 =
      ("ignored env_a" : Text) := rfl
  have hset : (ignoredWarning "env_set_extra" name' reason').take 13 =
      ("ignored env_s" : Text) := rfl
  rw [hallow, hset] at hstart
  exact absurd hstart (by decide)

private theorem names_allow_iff {name : Text} :
    Names "env_allowlist_extra" (extraRefusalWarnings policy) name ↔
      name ∈ policy.envAllowlistExtra ∧ extraRefusal name ≠ none := by
  rw [extraRefusalWarnings_eq]
  constructor
  · intro ⟨reason, hmem⟩
    rcases List.mem_append.mp hmem with hmem | hmem
    · obtain ⟨name', hname', hwarn⟩ := List.mem_filterMap.mp hmem
      obtain ⟨reason', hrefused, heq⟩ := Option.map_eq_some_iff.mp hwarn
      rw [← ignoredWarning_inj heq]
      exact ⟨hname', by simp [hrefused]⟩
    · obtain ⟨kv, -, hwarn⟩ := List.mem_filterMap.mp hmem
      obtain ⟨reason', -, heq⟩ := Option.map_eq_some_iff.mp hwarn
      exact absurd heq.symm (ignoredWarning_lists _ _ _ _)
  · intro ⟨hname, hrefused⟩
    obtain ⟨reason, hreason⟩ := Option.ne_none_iff_exists'.mp hrefused
    refine ⟨reason, List.mem_append_left _ (List.mem_filterMap.mpr ⟨name, hname, ?_⟩)⟩
    simp [allowWarning, hreason]

private theorem names_set_iff {name : Text} :
    Names "env_set_extra" (extraRefusalWarnings policy) name ↔
      ∃ value, (name, value) ∈ policy.envSetExtra ∧ setRefusal name value ≠ none := by
  rw [extraRefusalWarnings_eq]
  constructor
  · intro ⟨reason, hmem⟩
    rcases List.mem_append.mp hmem with hmem | hmem
    · obtain ⟨name', -, hwarn⟩ := List.mem_filterMap.mp hmem
      obtain ⟨reason', -, heq⟩ := Option.map_eq_some_iff.mp hwarn
      exact absurd heq (ignoredWarning_lists _ _ _ _)
    · obtain ⟨⟨name', value⟩, hkv, hwarn⟩ := List.mem_filterMap.mp hmem
      obtain ⟨reason', hrefused, heq⟩ := Option.map_eq_some_iff.mp hwarn
      rw [← ignoredWarning_inj heq]
      exact ⟨value, hkv, by simp [hrefused]⟩
  · intro ⟨value, hkv, hrefused⟩
    obtain ⟨reason, hreason⟩ := Option.ne_none_iff_exists'.mp hrefused
    refine ⟨reason, List.mem_append_right _ (List.mem_filterMap.mpr ⟨_, hkv, ?_⟩)⟩
    simp [setWarning, hreason]

private theorem buildEnv_eq (parent : EnvMap) (policy : ExecPolicy)
    (home tmp overlayRoot stateRoot : Text) :
    buildEnv parent policy home tmp overlayRoot stateRoot =
      policy.envSetExtra.foldl setExtra (policy.envAllowlistExtra.foldl (passExtra parent)
        (ownEnv parent home tmp overlayRoot stateRoot, [])) := rfl

private theorem ownEnv_lookup_none {name : Text} (hname : name ∉ ownNames) :
    (ownEnv parent home tmp overlayRoot stateRoot).lookup name = none := by
  cases hlookup : (ownEnv parent home tmp overlayRoot stateRoot).lookup name with
  | none => rfl
  | some value =>
    obtain ⟨l₁, l₂, heq, -⟩ := List.lookup_eq_some_iff.mp hlookup
    have hmem : (name, value) ∈ ownEnv parent home tmp overlayRoot stateRoot := by
      rw [heq]
      simp
    exact absurd (ownEnv_sourced _ hmem) hname

/-- What is passed through comes from the parent. -/
private theorem lookup_passed (name : Text) (names : List Text) (r : EnvMap × List Text) :
    (names.foldl (passExtra parent) r).1.lookup name =
      if name ∈ names ∧ extraRefusal name = none then (parent.lookup name).or (r.1.lookup name)
      else r.1.lookup name := by
  induction names generalizing r with
  | nil => simp
  | cons n names ih =>
    rw [List.foldl_cons, ih]
    have hstep : (passExtra parent r n).1.lookup name =
        if name = n ∧ extraRefusal name = none then (parent.lookup name).or (r.1.lookup name)
        else r.1.lookup name := by
      unfold passExtra
      by_cases hn : name = n
      · subst hn
        cases hrefused : extraRefusal name with
        | some reason => simp
        | none => cases hparent : parent.lookup name <;> simp [EnvMap.lookup_insert]
      · rw [if_neg (by simp [hn])]
        cases extraRefusal n with
        | some reason => rfl
        | none =>
          cases parent.lookup n with
          | none => rfl
          | some value =>
            dsimp only
            rw [EnvMap.lookup_insert, if_neg hn]
    rw [hstep]
    by_cases hok : extraRefusal name = none
    · by_cases hn : name = n
      · subst hn
        cases parent.lookup name <;> simp [hok]
      · simp [hn]
    · simp [hok]

private theorem lookup_unset {name : Text} {sets : List (Text × Text)}
    (hsets : ∀ value, (name, value) ∈ sets → setRefusal name value ≠ none)
    (r : EnvMap × List Text) :
    (sets.foldl setExtra r).1.lookup name = r.1.lookup name := by
  induction sets generalizing r with
  | nil => rfl
  | cons kv sets ih =>
    rw [List.foldl_cons, ih fun value h => hsets value (List.mem_cons_of_mem _ h)]
    unfold setExtra
    cases hkv : setRefusal kv.1 kv.2 with
    | some reason => rfl
    | none =>
      dsimp only
      rw [EnvMap.lookup_insert, if_neg]
      intro hname
      subst hname
      exact hsets kv.2 List.mem_cons_self hkv

private theorem lookup_set {name value : Text} {sets : List (Text × Text)}
    (hkeys : (sets.map Prod.fst).Nodup) (hmem : (name, value) ∈ sets)
    (hok : setRefusal name value = none) (r : EnvMap × List Text) :
    (sets.foldl setExtra r).1.lookup name = some value := by
  induction sets generalizing r with
  | nil => cases hmem
  | cons kv sets ih =>
    rw [List.map_cons, List.nodup_cons] at hkeys
    rw [List.foldl_cons]
    rcases List.mem_cons.mp hmem with heq | hrest
    · subst heq
      rw [lookup_unset]
      · unfold setExtra
        dsimp only
        rw [hok]
        dsimp only
        rw [EnvMap.lookup_insert, if_pos rfl]
      · intro value' hmem'
        exact absurd (List.mem_map.mpr ⟨_, hmem', rfl⟩) hkeys.1
    · exact ih hkeys.2 hrest _

private theorem fst_foldl_filter {σ τ α : Type} {step : σ × τ → α → σ × τ} {keep : α → Bool}
    {xs : List α} (hfst : ∀ r r' x, r.1 = r'.1 → (step r x).1 = (step r' x).1)
    (hdrop : ∀ x ∈ xs, keep x = false → ∀ r, (step r x).1 = r.1) {r r' : σ × τ} (hr : r.1 = r'.1) :
    ((xs.filter keep).foldl step r).1 = (xs.foldl step r').1 := by
  induction xs generalizing r r' with
  | nil => exact hr
  | cons x xs ih =>
    rw [List.forall_mem_cons] at hdrop
    cases hx : keep x with
    | true =>
      rw [List.filter_cons_of_pos hx, List.foldl_cons, List.foldl_cons]
      exact ih hdrop.2 (hfst r r' x hr)
    | false =>
      rw [List.filter_cons_of_neg (by simp [hx]), List.foldl_cons]
      exact ih hdrop.2 (hr.trans (hdrop.1 hx r').symm)

private theorem fst_passExtra {r r' : EnvMap × List Text} (name : Text) (h : r.1 = r'.1) :
    (passExtra parent r name).1 = (passExtra parent r' name).1 := by
  unfold passExtra
  cases extraRefusal name with
  | some reason => exact h
  | none =>
    cases parent.lookup name with
    | none => exact h
    | some value =>
      dsimp only
      rw [h]

private theorem fst_setExtra {r r' : EnvMap × List Text} (kv : Text × Text) (h : r.1 = r'.1) :
    (setExtra r kv).1 = (setExtra r' kv).1 := by
  unfold setExtra
  cases setRefusal kv.1 kv.2 with
  | some reason => exact h
  | none =>
    dsimp only
    rw [h]

end

namespace ExecPolicy

def withoutAllowed (policy : ExecPolicy) (name : Text) : ExecPolicy :=
  { policy with envAllowlistExtra := policy.envAllowlistExtra.filter (· ≠ name) }

def withoutSet (policy : ExecPolicy) (name : Text) : ExecPolicy :=
  { policy with envSetExtra := policy.envSetExtra.filter (·.1 ≠ name) }

@[simp] theorem withoutAllowed_sets (policy : ExecPolicy) (name : Text) :
    (policy.withoutAllowed name).envSetExtra = policy.envSetExtra := rfl

@[simp] theorem withoutAllowed_allowed (policy : ExecPolicy) (name : Text) :
    (policy.withoutAllowed name).envAllowlistExtra =
      policy.envAllowlistExtra.filter (· ≠ name) := rfl

/-- Two policies give every run the same environment. -/
def SameEnvs (policy policy' : ExecPolicy) : Prop :=
  ∀ parent home tmp overlayRoot stateRoot,
    (buildEnv parent policy home tmp overlayRoot stateRoot).1 =
      (buildEnv parent policy' home tmp overlayRoot stateRoot).1

end ExecPolicy

section

variable {parent : EnvMap} {policy : ExecPolicy} {home tmp overlayRoot stateRoot name value : Text}

private theorem sameEnvs_withoutAllowed (h : extraRefusal name ≠ none) :
    (policy.withoutAllowed name).SameEnvs policy := by
  intro parent home tmp overlayRoot stateRoot
  have hsets : ∀ r r' : EnvMap × List Text, r.1 = r'.1 →
      (policy.envSetExtra.foldl setExtra r).1 = (policy.envSetExtra.foldl setExtra r').1 := by
    intro r r' hr
    have hall := @fst_foldl_filter _ _ _ setExtra (fun _ => true) policy.envSetExtra
      (fun r r' kv => fst_setExtra kv) (fun _ _ hno => by cases hno) r r' hr
    rwa [List.filter_eq_self.mpr fun _ _ => rfl] at hall
  rw [buildEnv_eq, buildEnv_eq, ExecPolicy.withoutAllowed_sets, ExecPolicy.withoutAllowed_allowed]
  apply hsets
  apply fst_foldl_filter (fun r r' n => fst_passExtra n) _ rfl
  intro n _ hn r
  have hn : n = name := by simpa using hn
  subst hn
  obtain ⟨reason, hreason⟩ := Option.ne_none_iff_exists'.mp h
  unfold passExtra
  rw [hreason]

private theorem sameEnvs_withoutSet (h : ∀ value, (name, value) ∈ policy.envSetExtra →
    setRefusal name value ≠ none) : (policy.withoutSet name).SameEnvs policy := by
  intro parent home tmp overlayRoot stateRoot
  rw [buildEnv_eq, buildEnv_eq]
  apply fst_foldl_filter (fun r r' kv => fst_setExtra kv) _ rfl
  intro kv hkv hname r
  have hname : kv.1 = name := by simpa using hname
  subst hname
  obtain ⟨reason, hreason⟩ := Option.ne_none_iff_exists'.mp (h kv.2 hkv)
  unfold setExtra
  rw [hreason]

private theorem lookup_allowed (hname : name ∈ policy.envAllowlistExtra)
    (hok : extraRefusal name = none)
    (hsets : ∀ value, (name, value) ∈ policy.envSetExtra → setRefusal name value ≠ none) :
    (buildEnv parent policy home tmp overlayRoot stateRoot).1.lookup name = parent.lookup name := by
  rw [buildEnv_eq, lookup_unset hsets, lookup_passed, if_pos ⟨hname, hok⟩,
    ownEnv_lookup_none (not_own_of_extra hok), Option.or_none]

private theorem lookup_unnamed (hok : extraRefusal name = none)
    (hname : name ∉ policy.envAllowlistExtra)
    (hsets : ∀ value, (name, value) ∉ policy.envSetExtra) :
    (buildEnv parent policy home tmp overlayRoot stateRoot).1.lookup name = none := by
  rw [buildEnv_eq, lookup_unset (fun value h => absurd h (hsets value)), lookup_passed,
    if_neg (fun h => hname h.1)]
  exact ownEnv_lookup_none (not_own_of_extra hok)

private theorem notMem_withoutSet (value : Text) :
    (name, value) ∉ (policy.withoutSet name).envSetExtra := by
  intro h
  simpa using (List.mem_filter.mp h).2

private theorem names_set_iff_unused (hkeys : (policy.envSetExtra.map Prod.fst).Nodup)
    (hentry : (name, value) ∈ policy.envSetExtra) :
    Names "env_set_extra" (extraRefusalWarnings policy) name ↔
      (policy.withoutSet name).SameEnvs policy := by
  have honly : ∀ value', (name, value') ∈ policy.envSetExtra → value' = value := by
    intro value' h
    have heq := List.inj_on_of_nodup_map hkeys h hentry rfl
    exact congrArg Prod.snd heq
  rw [names_set_iff]
  constructor
  · intro ⟨value', hmem, hrefused⟩
    apply sameEnvs_withoutSet
    intro value'' hmem'
    rw [honly value'' hmem', ← honly value' hmem]
    exact hrefused
  · intro hsame
    refine ⟨value, hentry, fun hok => ?_⟩
    have hwith : (buildEnv [] policy [] [] [] []).1.lookup name = some value := by
      rw [buildEnv_eq]
      exact lookup_set hkeys hentry hok _
    have hname := (setRefusal_none hok).1
    have hwithout : (buildEnv [] (policy.withoutSet name) [] [] [] []).1.lookup name = none := by
      by_cases hallow : name ∈ policy.envAllowlistExtra
      · exact lookup_allowed hallow hname fun value h => absurd h (notMem_withoutSet value)
      · exact lookup_unnamed hname hallow notMem_withoutSet
    rw [hsame, hwith] at hwithout
    cases hwithout

private theorem names_allow_iff_unused (hentry : name ∈ policy.envAllowlistExtra) :
    Names "env_allowlist_extra" (extraRefusalWarnings policy) name ↔
      ((policy.withoutSet name).withoutAllowed name).SameEnvs (policy.withoutSet name) := by
  rw [names_allow_iff]
  constructor
  · intro ⟨_, hrefused⟩
    exact sameEnvs_withoutAllowed hrefused
  · intro hsame
    refine ⟨hentry, fun hok => ?_⟩
    have hwith : (buildEnv [(name, [])] (policy.withoutSet name) [] [] [] []).1.lookup name =
        some [] := by
      have hentry' : name ∈ (policy.withoutSet name).envAllowlistExtra := hentry
      rw [lookup_allowed hentry' hok fun value h => absurd h (notMem_withoutSet value)]
      simp
    have hwithout : (buildEnv [(name, [])] ((policy.withoutSet name).withoutAllowed name)
        [] [] [] []).1.lookup name = none := by
      refine lookup_unnamed hok (fun h => ?_) notMem_withoutSet
      simpa using (List.mem_filter.mp h).2
    rw [hsame, hwith] at hwithout
    cases hwithout

/-- The warnings shown before a run are those of every run. An entry that sets a value is named by
them exactly when it has no effect, and else its value is set in every run. A name to be passed
through is named exactly when, entries that set it aside, it has no effect; else every parent's
value is passed through where no accepted entry sets another. -/
theorem refusal_warnings_exact (policy : ExecPolicy)
    (hkeys : (policy.envSetExtra.map Prod.fst).Nodup) :
    (∀ parent home tmp overlayRoot stateRoot, extraRefusalWarnings policy =
      (buildEnv parent policy home tmp overlayRoot stateRoot).2) ∧
    (∀ name value, (name, value) ∈ policy.envSetExtra →
      (Names "env_set_extra" (extraRefusalWarnings policy) name ↔
        (policy.withoutSet name).SameEnvs policy) ∧
      (¬ Names "env_set_extra" (extraRefusalWarnings policy) name →
        ∀ parent home tmp overlayRoot stateRoot,
          (buildEnv parent policy home tmp overlayRoot stateRoot).1.lookup name = some value)) ∧
    ∀ name ∈ policy.envAllowlistExtra,
      (Names "env_allowlist_extra" (extraRefusalWarnings policy) name ↔
        ((policy.withoutSet name).withoutAllowed name).SameEnvs (policy.withoutSet name)) ∧
      (¬ Names "env_allowlist_extra" (extraRefusalWarnings policy) name →
        ∀ parent home tmp overlayRoot stateRoot value, parent.lookup name = some value →
          (buildEnv parent policy home tmp overlayRoot stateRoot).1.lookup name = some value ∨
          ∃ other, (name, other) ∈ policy.envSetExtra ∧ setRefusal name other = none ∧
            (buildEnv parent policy home tmp overlayRoot stateRoot).1.lookup name =
              some other) := by
  refine ⟨fun _ _ _ _ _ => extraRefusalWarnings_buildEnv, fun name value hentry => ?_,
    fun name hentry => ?_⟩
  · refine ⟨names_set_iff_unused hkeys hentry, fun hunnamed parent home tmp o s => ?_⟩
    have hok : setRefusal name value = none := by
      by_contra hrefused
      exact hunnamed (names_set_iff.mpr ⟨value, hentry, hrefused⟩)
    rw [buildEnv_eq]
    exact lookup_set hkeys hentry hok _
  · refine ⟨names_allow_iff_unused hentry, fun hunnamed parent home tmp o s value hvalue => ?_⟩
    have hok : extraRefusal name = none := by
      by_contra hrefused
      exact hunnamed (names_allow_iff.mpr ⟨hentry, hrefused⟩)
    by_cases hset : ∃ other, (name, other) ∈ policy.envSetExtra ∧ setRefusal name other = none
    · obtain ⟨other, hmem, hother⟩ := hset
      refine .inr ⟨other, hmem, hother, ?_⟩
      rw [buildEnv_eq]
      exact lookup_set hkeys hmem hother _
    · left
      rw [lookup_allowed hentry hok fun other hmem hother => hset ⟨other, hmem, hother⟩]
      exact hvalue

end

private theorem lookup_passBaseline {parent : EnvMap} {overlayRoot stateRoot name : Text}
    (hpath : name ≠ "PATH") {names : List Text} (hnames : ∀ n ∈ names, n ∈ ownNames)
    (env : EnvMap) :
    (names.foldl (passBaseline parent overlayRoot stateRoot) env).lookup name =
      if name ∈ names then (parent.lookup name).or (env.lookup name) else env.lookup name := by
  induction names generalizing env with
  | nil => simp
  | cons n names ih =>
    rw [List.forall_mem_cons] at hnames
    have hstep : (passBaseline parent overlayRoot stateRoot env n).lookup name =
        if name = n then (parent.lookup name).or (env.lookup name) else env.lookup name := by
      unfold passBaseline
      rw [(ownNames_upper n hnames.1).1]
      simp only [Bool.false_eq_true, if_false]
      by_cases hn : name = n
      · subst hn
        rw [if_pos rfl]
        cases parent.lookup name with
        | none => rfl
        | some value =>
          dsimp only
          rw [if_neg hpath, EnvMap.lookup_insert, if_pos rfl]
          rfl
      · rw [if_neg hn]
        cases parent.lookup n with
        | none => rfl
        | some value =>
          dsimp only
          split
          · rw [EnvMap.lookup_insert, if_neg hpath]
          · rw [EnvMap.lookup_insert, if_neg hn]
    rw [List.foldl_cons, ih hnames.2, hstep]
    by_cases hn : name = n
    · subst hn
      cases parent.lookup name <;> simp
    · simp [hn]

private theorem lookup_baseline {parent : EnvMap} {policy : ExecPolicy}
    {home tmp overlayRoot stateRoot name : Text} (hname : name ∈ baselinePassthrough)
    (hpath : name ≠ "PATH") :
    (buildEnv parent policy home tmp overlayRoot stateRoot).1.lookup name = parent.lookup name := by
  have hmanaged : ∀ n ∈ baselinePassthrough, n ≠ "TERM" ∧ n ≠ "TMPDIR" ∧ n ≠ "HOME" := by decide
  obtain ⟨hterm, htmp, hhome⟩ := hmanaged name hname
  rw [lookup_buildEnv (List.mem_append_right _ hname)]
  unfold ownEnv
  rw [EnvMap.lookup_insert, if_neg hterm, EnvMap.lookup_insert, if_neg htmp, EnvMap.lookup_insert,
    if_neg hhome, lookup_passBaseline hpath (fun n hn => List.mem_append_right _ hn), if_pos hname]
  simp

private theorem EnvMap.insert_insert (name value value' : Text) (env : EnvMap) :
    EnvMap.insert name value (EnvMap.insert name value' env) = EnvMap.insert name value env := by
  induction env with
  | nil => simp [EnvMap.insert]
  | cons kv env ih =>
    obtain ⟨n, v⟩ := kv
    rw [EnvMap.insert, EnvMap.insert]
    by_cases hn : n = name
    · rw [if_pos hn, if_pos hn, EnvMap.insert, if_pos rfl]
    · rw [if_neg hn, if_neg hn]
      by_cases hlt : name < n
      · rw [if_pos hlt, if_pos hlt, EnvMap.insert, if_pos rfl]
      · rw [if_neg hlt, if_neg hlt, EnvMap.insert, if_neg hn, if_neg hlt, ih]

/-- A policy that passes two variables through and sets one of them. -/
def overlappingExtras : ExecPolicy :=
  { noExtras with
    envAllowlistExtra := ["LANG", "CI"]
    envSetExtra := [("CI", "/x")] }

private theorem overlapping_keys : (overlappingExtras.envSetExtra.map Prod.fst).Nodup :=
  List.nodup_singleton _

private theorem overlapping_set : (("CI" : Text), ("/x" : Text)) ∈ overlappingExtras.envSetExtra :=
  List.mem_singleton.mpr rfl

private theorem overlapping_accepted : setRefusal "CI" "/x" = none := by decide +kernel

theorem refusal_warnings_overlapping :
    extraRefusalWarnings overlappingExtras =
        (buildEnv [] overlappingExtras [] [] [] []).2 ∧
      (Names "env_set_extra" (extraRefusalWarnings overlappingExtras) "CI" ↔
        (overlappingExtras.withoutSet "CI").SameEnvs overlappingExtras) ∧
      (Names "env_allowlist_extra" (extraRefusalWarnings overlappingExtras) "LANG" ↔
        ((overlappingExtras.withoutSet "LANG").withoutAllowed "LANG").SameEnvs
          (overlappingExtras.withoutSet "LANG")) :=
  have h := refusal_warnings_exact overlappingExtras overlapping_keys
  ⟨h.1 _ _ _ _ _, (h.2.1 _ _ overlapping_set).1, (h.2.2 _ List.mem_cons_self).1⟩

/-- A name that is named is forwarded, by the baseline. A name that is not named is forwarded for
no parent, since an entry sets it, and dropping it changes no environment. -/
theorem named_entry_forwarded :
    (Names "env_allowlist_extra" (extraRefusalWarnings overlappingExtras) "LANG" ∧
      (buildEnv [("LANG", "C")] overlappingExtras "/h" "/t" "/o" "/s").1.lookup ("LANG" : Text) =
        some ("C" : Text)) ∧
    ¬ Names "env_allowlist_extra" (extraRefusalWarnings overlappingExtras) "CI" ∧
      (∀ parent home tmp overlayRoot stateRoot,
        (buildEnv parent overlappingExtras home tmp overlayRoot stateRoot).1.lookup ("CI" : Text) =
          some ("/x" : Text)) ∧
      (overlappingExtras.withoutAllowed "CI").SameEnvs overlappingExtras := by
  have hlang : extraRefusal "LANG" ≠ none := fun h => not_own_of_extra h (by decide)
  have hci := (setRefusal_none overlapping_accepted).1
  refine ⟨⟨names_allow_iff.mpr ⟨List.mem_cons_self, hlang⟩, ?_⟩, fun h => ?_, ?_, ?_⟩
  · exact lookup_baseline (by decide) (by decide)
  · exact (names_allow_iff.mp h).2 hci
  · intro parent home tmp overlayRoot stateRoot
    rw [buildEnv_eq]
    exact lookup_set overlapping_keys overlapping_set overlapping_accepted _
  · intro parent home tmp overlayRoot stateRoot
    have hset : ∀ r : EnvMap × List Text,
        (setExtra r ("CI", "/x")).1 = EnvMap.insert "CI" "/x" r.1 := by
      intro r
      unfold setExtra
      dsimp only
      rw [overlapping_accepted]
    have hpass : ∀ r : EnvMap × List Text,
        EnvMap.insert "CI" "/x" (passExtra parent r "CI").1 = EnvMap.insert "CI" "/x" r.1 := by
      intro r
      unfold passExtra
      rw [hci]
      cases parent.lookup ("CI" : Text) with
      | none => rfl
      | some value => exact EnvMap.insert_insert _ _ _ _
    have hallowed : overlappingExtras.envAllowlistExtra = [("LANG" : Text), "CI"] := rfl
    have hsets : overlappingExtras.envSetExtra = [(("CI" : Text), ("/x" : Text))] := rfl
    have hdropped : (overlappingExtras.withoutAllowed "CI").envAllowlistExtra =
        [("LANG" : Text)] := by decide
    rw [buildEnv_eq, buildEnv_eq, hdropped, ExecPolicy.withoutAllowed_sets, hsets, hallowed]
    simp only [List.foldl_cons, List.foldl_nil]
    rw [hset, hset, hpass]

end Jitgen
