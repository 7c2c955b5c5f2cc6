import Jitgen.Adapters.Listing

/-!
# Leaving each path to one adapter

The registry goes twice over the emitted targets: the first pass decides which adapter owns a path
and notes for every target whether it stays, the second one takes one note for each target.
-/

namespace Jitgen

open Text

/-- Whether each target stays; the first target in a path decides who owns the path. -/
def keepMask : (owners : List (Text × AdapterId)) → List Target → List Bool
  | _, [] => []
  | owners, t :: ts =>
    match owners.lookup t.path with
    | some owner => decide (owner = t.adapter) :: keepMask owners ts
    | none => true :: keepMask ((t.path, t.adapter) :: owners) ts

/-- Take one entry of the mask for each element; a mask that is too short is a panic. -/
def retainBy {α : Type} : (mask : List Bool) → List α → Option (List α)
  | _, [] => some []
  | [], _ :: _ => none
  | keep :: mask, a :: as => (retainBy mask as).map fun rest => if keep then a :: rest else rest

def renumber (ts : List Target) : List Target := ts.mapIdx fun i t => { t with id := nextId i }

/-- De-duplicate and number the targets of all adapters. -/
def dedupTargets (ts : List Target) : Option (List Target) :=
  (retainBy (keepMask [] ts) ts).map renumber

private theorem retainBy_keepMask (owners : List (Text × AdapterId)) (ts : List Target) :
    retainBy (keepMask owners ts) ts = some (keepOwned owners ts) := by
  induction ts generalizing owners with
  | nil => rfl
  | cons t ts ih =>
    cases howner : owners.lookup t.path with
    | none => simp [keepMask, keepOwned, retainBy, howner, ih]
    | some owner =>
      by_cases heq : owner = t.adapter <;>
        simp [keepMask, keepOwned, retainBy, howner, ih, heq]

theorem dedupTargets_eq (ts : List Target) :
    dedupTargets ts = some (renumber (keepOwned [] ts)) := by
  rw [dedupTargets, retainBy_keepMask, Option.map_some]

@[simp] theorem renumber_content (ts : List Target) :
    (renumber ts).map Target.content = ts.map Target.content := by
  apply List.ext_getElem
  · simp [renumber]
  · intro i h₁ h₂
    simp [renumber, Target.content]

theorem id_of_renumber {ts : List Target} {i : Nat} {t : Target} (h : (renumber ts)[i]? = some t) :
    t.id = nextId i := by
  rw [renumber, List.getElem?_mapIdx] at h
  obtain ⟨t', -, rfl⟩ := Option.map_eq_some_iff.mp h
  rfl

/-- The targets of each detected adapter, in the order of the registry. -/
structure EmittedTargets where
  lists : List (AdapterId × List Target)
  ids_nodup : (lists.map Prod.fst).Nodup
  emitted_by : ∀ l ∈ lists, ∀ t ∈ l.2, t.adapter = l.1

namespace EmittedTargets

variable (e : EmittedTargets)

def all : List Target := e.lists.flatMap Prod.snd

/-- The first adapter with a target in a path, and its targets. -/
def firstEmitter (path : Text) : Option (AdapterId × List Target) :=
  e.lists.find? fun l => l.2.any (·.path = path)

/-- The targets that the first adapter in a path has there. -/
def firstTargets (path : Text) : List Target :=
  (((e.firstEmitter path).map Prod.snd).getD []).filter (·.path = path)

variable {e}

private theorem firstOwner_all (path : Text) :
    firstOwner e.all path = (e.firstEmitter path).map Prod.fst := by
  unfold all firstEmitter
  have hby := e.emitted_by
  generalize e.lists = ls at hby
  induction ls with
  | nil => rfl
  | cons l ls ih =>
    have htail := ih fun l' hl' => hby l' (List.mem_cons_of_mem _ hl')
    unfold firstOwner at htail ⊢
    rw [List.flatMap_cons, List.find?_append]
    cases hfind : l.2.find? (·.path = path) with
    | none =>
      have hany : l.2.any (·.path = path) = false := by
        rw [List.any_eq_false]
        exact List.find?_eq_none.mp hfind
      rw [Option.none_or, htail, List.find?_cons_of_neg (by simp [hany])]
    | some t =>
      have hany : l.2.any (·.path = path) = true := by
        rw [List.any_eq_true]
        exact ⟨t, List.mem_of_find?_eq_some hfind, (List.find?_eq_some_iff_append.mp hfind).1⟩
      have hid : t.adapter = l.1 :=
        hby l List.mem_cons_self t (List.mem_of_find?_eq_some hfind)
      simp [hany, hid]

/-- Among adapters with different ids, the targets with an id are those of one adapter. -/
private theorem filter_all_adapter {l : AdapterId × List Target} (hl : l ∈ e.lists) :
    e.all.filter (·.adapter = l.1) = l.2 := by
  obtain ⟨before, after, hlists⟩ := List.append_of_mem hl
  have hnodup := e.ids_nodup
  have hby := e.emitted_by
  rw [hlists] at hnodup hby
  have hself : l.2.filter (·.adapter = l.1) = l.2 := by
    apply List.filter_eq_self.mpr
    intro t ht
    simpa using hby l (by simp) t ht
  have hother : ∀ ls : List (AdapterId × List Target),
      (∀ l' ∈ ls, l' ∈ before ++ l :: after ∧ l'.1 ≠ l.1) →
      (ls.flatMap Prod.snd).filter (·.adapter = l.1) = [] := by
    intro ls hls
    apply List.filter_eq_nil_iff.mpr
    intro t ht
    obtain ⟨l', hl', ht⟩ := List.mem_flatMap.mp ht
    have hid := hby l' (hls l' hl').1 t ht
    simpa [hid] using (hls l' hl').2
  rw [List.map_append, List.map_cons] at hnodup
  obtain ⟨-, hcons, hdisjoint⟩ := List.nodup_append.mp hnodup
  have hbefore := hother before fun l' hl' => ⟨List.mem_append_left _ hl',
    hdisjoint _ (List.mem_map_of_mem hl') _ List.mem_cons_self⟩
  have hafter := hother after fun l' hl' =>
    ⟨List.mem_append_right _ (List.mem_cons_of_mem _ hl'), fun heq =>
      (List.nodup_cons.mp hcons).1 (heq ▸ List.mem_map_of_mem hl')⟩
  rw [all, hlists, List.flatMap_append, List.flatMap_cons, List.filter_append, List.filter_append,
    hbefore, hafter, hself, List.append_nil, List.nil_append]

/-- What the passes leave in a path. -/
private theorem filter_keepOwned (path : Text) :
    (keepOwned [] e.all).filter (·.path = path) = e.firstTargets path := by
  have hkept : (keepOwned [] e.all).filter (·.path = path) =
      (e.all.filter fun t => (e.firstEmitter path).map Prod.fst = some t.adapter).filter
        (·.path = path) := by
    rw [keepOwned_eq_filter, List.filter_filter, List.filter_filter]
    apply List.filter_congr
    intro t _
    by_cases hp : t.path = path
    · have howner : firstOwner e.all t.path = (e.firstEmitter path).map Prod.fst := by
        rw [firstOwner_all, hp]
      simp [hp, ← howner]
    · simp [hp]
  rw [hkept]
  unfold firstTargets
  cases hfirst : e.firstEmitter path with
  | none => simp
  | some l =>
    have hmem : l ∈ e.lists := List.mem_of_find?_eq_some hfirst
    have hadapter : (e.all.filter fun t => (some l).map Prod.fst = some t.adapter) = l.2 := by
      rw [← filter_all_adapter hmem]
      apply List.filter_congr
      intro t _
      simp [eq_comm]
    rw [hadapter]
    rfl

variable (e)

private theorem filter_path_content (ts : List Target) (path : Text) :
    (ts.filter (·.path = path)).map Target.content =
      (ts.map Target.content).filter (·.path = path) := by
  rw [List.filter_map]
  rfl

theorem exactly_first_renumber (path : Text) :
    ((renumber (keepOwned [] e.all)).filter (·.path = path)).map Target.content =
      (e.firstTargets path).map Target.content := by
  rw [filter_path_content, renumber_content, ← filter_path_content, filter_keepOwned]

theorem first_only_renumber {t : Target} (ht : t ∈ renumber (keepOwned [] e.all)) :
    (e.firstEmitter t.path).map Prod.fst = some t.adapter := by
  have hcontent : t.content ∈ (keepOwned [] e.all).map Target.content := by
    rw [← renumber_content]
    exact List.mem_map_of_mem ht
  obtain ⟨t', ht', heq⟩ := List.mem_map.mp hcontent
  have hpath : t'.content.path = t.content.path := congrArg Target.path heq
  have hadapter : t'.content.adapter = t.content.adapter := congrArg Target.adapter heq
  rw [keepOwned_eq_filter, List.mem_filter] at ht'
  have howner : firstOwner e.all t'.path = some t'.adapter := of_decide_eq_true ht'.2
  calc (e.firstEmitter t.path).map Prod.fst
      = firstOwner e.all t.path := (firstOwner_all t.path).symm
    _ = firstOwner e.all t'.path := congrArg (firstOwner e.all) hpath.symm
    _ = some t.adapter := howner.trans (congrArg some hadapter)

theorem covers_renumber {t : Target} (ht : t ∈ e.all) :
    ∃ t' ∈ renumber (keepOwned [] e.all), t'.path = t.path := by
  have hsome : (firstOwner e.all t.path).isSome := by
    rw [firstOwner, Option.isSome_map, List.find?_isSome]
    exact ⟨t, ht, by simp⟩
  obtain ⟨owner, howner⟩ := Option.isSome_iff_exists.mp hsome
  obtain ⟨first, hfind, hid⟩ := Option.map_eq_some_iff.mp howner
  have hpath : first.path = t.path := by simpa using (List.find?_eq_some_iff_append.mp hfind).1
  have hkept : first ∈ keepOwned [] e.all := by
    rw [keepOwned_eq_filter, List.mem_filter]
    refine ⟨List.mem_of_find?_eq_some hfind, ?_⟩
    simp [hpath, howner, hid]
  have hcontent : first.content ∈ (renumber (keepOwned [] e.all)).map Target.content := by
    rw [renumber_content]
    exact List.mem_map_of_mem hkept
  obtain ⟨t', ht', heq⟩ := List.mem_map.mp hcontent
  have hsame : t'.content.path = first.content.path := congrArg Target.path heq
  exact ⟨t', ht', hsame.trans hpath⟩

end EmittedTargets

section

variable [TreeSitter]

omit [TreeSitter] in
private theorem extractHunk_found {root : SyntaxNode} {kinds : List (Text × SymbolKind)}
    {source : Bytes} {path : Text} {adapter : AdapterId} {capped : List LineRange} {st : Extraction}
    (hunk : LineRange) :
    let st' := extractHunk root kinds source path adapter capped st hunk
    st'.targets ≠ [] ∨ st'.unmatched ≠ [] := by
  intro st'
  show (extractHunk root kinds source path adapter capped st hunk).targets ≠ [] ∨
    (extractHunk root kinds source path adapter capped st hunk).unmatched ≠ []
  unfold extractHunk
  cases enclosing root (hunk.start - 1) kinds with
  | none => simp
  | some found =>
    cases hspan : nodeSpan found.1.node with
    | none => simp [hspan]
    | some span =>
      by_cases hany : (st.targets.any fun t => t.path = path ∧ t.span = span) = true
      · have hne : st.targets ≠ [] := by
          intro hnil
          simp [hnil] at hany
        simp only [hspan, hany, if_true]
        exact .inl hne
      · simp only [hspan, hany]
        simp

/-- A file has a target exactly when it has changed lines. -/
private theorem extractTargets_eq_nil_iff {lang : Option Lang} {source : Bytes} {path : Text}
    {adapter : AdapterId} {hunks : List LineRange} {seq : Nat} :
    (extractTargets lang source path adapter hunks seq).1 = [] ↔ hunks = [] := by
  constructor
  · intro h
    by_contra hne
    have hfallback : (fallbackHunks path adapter hunks seq).1 ≠ [] := by
      simpa [fallbackHunks] using hne
    have hisEmpty : hunks.isEmpty = false := by simpa using hne
    unfold extractTargets at h
    rw [hisEmpty] at h
    cases lang with
    | none => exact hfallback (by simpa using h)
    | some lang =>
      cases htree : grammarTree lang source with
      | none => exact hfallback (by simpa [extractWithGrammar, htree] using h)
      | some root =>
        have hfold : ∀ (capped todo : List LineRange) (st : Extraction),
            (st.targets ≠ [] ∨ st.unmatched ≠ []) ∨ todo ≠ [] →
            (todo.foldl (extractHunk root lang.symbolKinds source path adapter capped) st).targets ≠
              [] ∨
            (todo.foldl (extractHunk root lang.symbolKinds source path adapter capped)
              st).unmatched ≠ [] := by
          intro capped todo
          induction todo with
          | nil => exact fun st hst => hst.elim id (fun h => absurd rfl h)
          | cons hunk todo ih => exact fun st _ => ih _ (.inl (extractHunk_found hunk))
        have hcapped : hunks.take maxHunks ≠ [] := by
          simpa [maxHunks] using hne
        have hfound := hfold (hunks.take maxHunks) (hunks.take maxHunks) ⟨[], [], seq⟩
          (.inr hcapped)
        simp [extractWithGrammar, htree, fallbackHunks] at h
        rcases hfound with htargets | hunmatched
        · exact htargets h.1
        · exact hunmatched h.2.1
  · intro h
    simp [extractTargets, h]

/-- What an adapter finds in a change has the path of the change. -/
private theorem exists_found_iff (run : ChangeAnalysis) {a : LanguageAdapter} {fc : FileChange}
    {path : Text} : (∃ t ∈ run.found (a, fc), t.path = path) ↔
      (a.owns path).isSome ∧ fc.path = path ∧ fc.kind ≠ .deleted ∧ fc.hunks ≠ [] := by
  constructor
  · intro h
    obtain ⟨t, ht, hpath⟩ := h
    have hfc : fc.path = path := (ChangeAnalysis.mem_found ht).1.symm.trans hpath
    unfold ChangeAnalysis.found at ht
    by_cases hdeleted : fc.kind = .deleted
    · simp [hdeleted] at ht
    · cases howns : a.owns fc.path with
      | none => simp [hdeleted, howns] at ht
      | some lang =>
        simp only [hdeleted, howns, if_false] at ht
        refine ⟨by simp [← hfc, howns], hfc, hdeleted, fun hnil => ?_⟩
        rw [extractTargets_eq_nil_iff.mpr hnil] at ht
        cases ht
  · intro h
    obtain ⟨howns, hfc, hdeleted, hhunks⟩ := h
    obtain ⟨lang, hlang⟩ := Option.isSome_iff_exists.mp howns
    have hne : run.found (a, fc) ≠ [] := by
      simp only [ChangeAnalysis.found, hfc, hdeleted, hlang, if_false]
      exact fun hnil => hhunks (extractTargets_eq_nil_iff.mp hnil)
    obtain ⟨t, ht⟩ := List.exists_mem_of_ne_nil _ hne
    exact ⟨t, ht, (ChangeAnalysis.mem_found ht).1.trans hfc⟩

/-- Whether an adapter emits a target in a path depends on the changes of the path only. -/
theorem exists_emitted_iff {a : LanguageAdapter} {repo : RepoSnapshot} {changes : ChangeSet}
    {path : Text} : (∃ t ∈ a.analyzeChanges repo changes, t.path = path) ↔
      (a.owns path).isSome ∧
        ∃ fc ∈ changes.files, fc.path = path ∧ fc.kind ≠ .deleted ∧ fc.hunks ≠ [] := by
  let run : ChangeAnalysis := ⟨[], repo, changes⟩
  have hcontent : (∃ t ∈ a.analyzeChanges repo changes, t.path = path) ↔
      ∃ t ∈ changes.files.flatMap fun fc => run.found (a, fc), t.path = path := by
    have hpaths : ∀ ts : List Target, (∃ t ∈ ts, t.path = path) ↔
        ∃ t ∈ ts.map Target.content, t.path = path := by
      intro ts
      simp only [List.mem_map, exists_exists_and_eq_and]
      rfl
    rw [hpaths, LanguageAdapter.analyzeChanges,
      @ChangeAnalysis.analyzeOwned_content _ run, ← hpaths]
  rw [hcontent]
  constructor
  · intro h
    obtain ⟨t, ht, hpath⟩ := h
    obtain ⟨fc, hfc, ht⟩ := List.mem_flatMap.mp ht
    obtain ⟨howns, hrest⟩ := (exists_found_iff run).mp ⟨t, ht, hpath⟩
    exact ⟨howns, fc, hfc, hrest⟩
  · intro h
    obtain ⟨howns, fc, hfc, hrest⟩ := h
    obtain ⟨t, ht, hpath⟩ := (exists_found_iff run).mpr ⟨howns, hrest⟩
    exact ⟨t, List.mem_flatMap.mpr ⟨fc, hfc, ht⟩, hpath⟩

end

theorem find?_of_nodup_map {α β : Type} [DecidableEq β] (key : α → β) {l : List α}
    (hkeys : (l.map key).Nodup) {a : α} (ha : a ∈ l) :
    l.find? (fun b => key b = key a) = some a := by
  induction l with
  | nil => cases ha
  | cons b l ih =>
    rw [List.map_cons, List.nodup_cons] at hkeys
    rcases List.mem_cons.mp ha with rfl | ha
    · rw [List.find?_cons_of_pos (by simp)]
    · have hne : key b ≠ key a := fun heq => hkeys.1 (heq ▸ List.mem_map_of_mem ha)
      rw [List.find?_cons_of_neg (by simpa using hne)]
      exact ih hkeys.2 ha

namespace GenericAdapter

theorem adapterId_notReserved (config : RepoConfig) :
    adapterId config ∉ reservedBuiltinIds := by
  have hids : ∀ raw ∈ reservedBuiltinIds, ("generic-" : Text) ++ raw ∉ reservedBuiltinIds := by
    decide
  have hraw : ∀ raw : Text, (if reservedBuiltinIds.contains raw then ("generic-" : Text) ++ raw
      else raw) ∉ reservedBuiltinIds := by
    intro raw
    by_cases hmem : raw ∈ reservedBuiltinIds
    · rw [if_pos (List.contains_iff_mem.mpr hmem)]
      exact hids raw hmem
    · rw [if_neg (fun h => hmem (List.contains_iff_mem.mp h))]
      exact hmem
  exact hraw (config.id.getD "generic")

end GenericAdapter

namespace AdapterRegistry

theorem withBuiltins_ids_nodup (config : RepoConfig) :
    ((withBuiltins config).map (·.id)).Nodup := by
  have hbuiltins : reservedBuiltinIds.Nodup := by decide
  have hids : (withBuiltins config).map (·.id) =
      reservedBuiltinIds ++ [GenericAdapter.adapterId config] := rfl
  rw [hids]
  rw [List.nodup_append]
  refine ⟨hbuiltins, by simp, fun id hid id' hid' heq => ?_⟩
  rw [List.mem_singleton] at hid'
  exact GenericAdapter.adapterId_notReserved config (hid' ▸ heq ▸ hid)

theorem adapter_of_mem {reg : AdapterRegistry} (hids : (reg.map (·.id)).Nodup)
    {a : LanguageAdapter} (ha : a ∈ reg) : reg.adapter a.id = some a :=
  find?_of_nodup_map LanguageAdapter.id hids ha

private theorem id_of_adapter {reg : AdapterRegistry} {id : AdapterId} {a : LanguageAdapter}
    (h : reg.adapter id = some a) : a.id = id := by
  simpa using (List.find?_eq_some_iff_append.mp h).1

variable [TreeSitter]

private theorem adapter_of_analyzeChanges {a : LanguageAdapter} {repo : RepoSnapshot}
    {changes : ChangeSet} {t : Target} (ht : t ∈ a.analyzeChanges repo changes) :
    t.adapter = a.id := by
  have hcontent :=
    @ChangeAnalysis.analyzeOwned_content _ ⟨[], repo, changes⟩ a changes.files 0
  have hmem : t.content ∈ (analyzeOwned a repo changes.files 0).map Target.content :=
    List.mem_map_of_mem ht
  rw [hcontent] at hmem
  obtain ⟨t', ht', heq⟩ := List.mem_map.mp hmem
  obtain ⟨fc, -, hfound⟩ := List.mem_flatMap.mp ht'
  calc t.adapter = t'.adapter := (congrArg Target.adapter heq).symm
    _ = a.id := (ChangeAnalysis.mem_found hfound).2

/-- What each detected adapter of a repository emits for a change set. -/
def emitted (config : RepoConfig) (repo : RepoSnapshot) (changes : ChangeSet) : EmittedTargets where
  lists := (((withBuiltins config).detect repo).map Prod.fst).filterMap fun id =>
    ((withBuiltins config).adapter id).map fun a => (id, a.analyzeChanges repo changes)
  ids_nodup := by
    have hdetected : (((withBuiltins config).detect repo).map Prod.fst).Nodup := by
      apply List.Sublist.nodup _ (withBuiltins_ids_nodup config)
      have hids : (withBuiltins config).map (·.id) =
          ((withBuiltins config).map fun a => (a.id, a.detect repo)).map Prod.fst := by
        rw [List.map_map]
        rfl
      rw [hids]
      exact List.filter_sublist.map _
    refine List.Sublist.nodup ?_ hdetected
    rw [List.map_filterMap]
    generalize ((withBuiltins config).detect repo).map Prod.fst = ids
    induction ids with
    | nil => exact List.Sublist.refl _
    | cons id ids ih =>
      cases hadapter : (withBuiltins config).adapter id with
      | none => simpa [hadapter] using ih.cons id
      | some a => simpa [hadapter] using ih
  emitted_by := by
    intro l hl t ht
    obtain ⟨id, -, hsome⟩ := List.mem_filterMap.mp hl
    obtain ⟨a, hadapter, rfl⟩ := Option.map_eq_some_iff.mp hsome
    exact (adapter_of_analyzeChanges ht).trans (id_of_adapter hadapter)

/-- Every detected adapter is dispatched to, in the order of the registry. -/
private theorem lists_emitted (config : RepoConfig) (repo : RepoSnapshot) (changes : ChangeSet) :
    (emitted config repo changes).lists =
      ((withBuiltins config).filter fun a => (a.detect repo).detected).map fun a =>
        (a.id, a.analyzeChanges repo changes) := by
  show List.filterMap _ _ = _
  have hmem : ∀ a ∈ (withBuiltins config).filter fun a => (a.detect repo).detected,
      (withBuiltins config).adapter a.id = some a := fun a ha =>
    adapter_of_mem (withBuiltins_ids_nodup config) (List.mem_of_mem_filter ha)
  rw [detect, List.filter_map, List.map_map, List.filterMap_map]
  generalize hreg : withBuiltins config = reg at hmem ⊢
  have hsame : (reg.filter fun a => (a.detect repo).detected) =
      reg.filter ((fun x : AdapterId × DetectionResult => x.2.detected) ∘
        fun a => (a.id, a.detect repo)) := rfl
  rw [← hsame]
  generalize reg.filter (fun a => (a.detect repo).detected) = found at hmem ⊢
  induction found with
  | nil => rfl
  | cons a found ih =>
    have ha : ((fun id => (reg.adapter id).map fun a => (id, a.analyzeChanges repo changes)) ∘
        Prod.fst ∘ fun a : LanguageAdapter => (a.id, a.detect repo)) a =
        some (a.id, a.analyzeChanges repo changes) := by
      simp [hmem a List.mem_cons_self]
    rw [List.filterMap_cons_some ha, List.map_cons,
      ih fun b hb => hmem b (List.mem_cons_of_mem _ hb)]

private theorem all_emitted (config : RepoConfig) (repo : RepoSnapshot) (changes : ChangeSet) :
    (emitted config repo changes).all = (withBuiltins config).foundTargets repo changes := by
  show (List.filterMap _ _).flatMap Prod.snd = List.flatMap _ _
  generalize ((withBuiltins config).detect repo).map Prod.fst = ids
  induction ids with
  | nil => rfl
  | cons id ids ih =>
    cases hadapter : (withBuiltins config).adapter id with
    | none => simpa [hadapter] using ih
    | some a => simpa [hadapter] using ih

theorem analyze_eq_dedup (config : RepoConfig) (repo : RepoSnapshot) (changes : ChangeSet) :
    dedupTargets (emitted config repo changes).all =
      some ((withBuiltins config).analyze repo changes) := by
  rw [dedupTargets_eq, all_emitted]
  rfl

/-- The first detected adapter that emits a target in a path. -/
def emitterOf (config : RepoConfig) (repo : RepoSnapshot) (changes : ChangeSet) (path : Text) :
    Option LanguageAdapter :=
  ((withBuiltins config).filter fun a => (a.detect repo).detected).find? fun a =>
    (a.analyzeChanges repo changes).any (·.path = path)

private theorem firstEmitter_emitted (config : RepoConfig) (repo : RepoSnapshot)
    (changes : ChangeSet) (path : Text) : (emitted config repo changes).firstEmitter path =
      (emitterOf config repo changes path).map fun a => (a.id, a.analyzeChanges repo changes) := by
  rw [EmittedTargets.firstEmitter, lists_emitted, List.find?_map]
  rfl

private theorem analyze_eq_renumber (config : RepoConfig) (repo : RepoSnapshot)
    (changes : ChangeSet) :
    (withBuiltins config).analyze repo changes =
      renumber (keepOwned [] (emitted config repo changes).all) := by
  rw [all_emitted]
  rfl

theorem emitter_of_mem {config : RepoConfig} {repo : RepoSnapshot} {changes : ChangeSet}
    {t : Target} (ht : t ∈ (withBuiltins config).analyze repo changes) :
    ∃ a, emitterOf config repo changes t.path = some a ∧ a.id = t.adapter ∧
      t.content ∈ (a.analyzeChanges repo changes).map Target.content := by
  rw [analyze_eq_renumber] at ht
  have hfirst := (emitted config repo changes).first_only_renumber ht
  rw [firstEmitter_emitted] at hfirst
  cases hemitter : emitterOf config repo changes t.path with
  | none => simp [hemitter] at hfirst
  | some a =>
    have hid : a.id = t.adapter := by simpa [hemitter] using hfirst
    have hfound := (emitted config repo changes).exactly_first_renumber t.path
    have hmem : t.content ∈ (((renumber (keepOwned [] (emitted config repo changes).all)).filter
        (·.path = t.path)).map Target.content) :=
      List.mem_map_of_mem (List.mem_filter.mpr ⟨ht, by simp⟩)
    rw [hfound, EmittedTargets.firstTargets, firstEmitter_emitted, hemitter] at hmem
    obtain ⟨t', ht', heq⟩ := List.mem_map.mp hmem
    exact ⟨a, rfl, hid, heq ▸ List.mem_map_of_mem (List.mem_of_mem_filter ht')⟩

theorem exists_target_of_emitter {config : RepoConfig} {repo : RepoSnapshot} {changes : ChangeSet}
    {path : Text} {a : LanguageAdapter} (h : emitterOf config repo changes path = some a) :
    ∃ t ∈ (withBuiltins config).analyze repo changes, t.path = path ∧ t.adapter = a.id := by
  have hmem : (a.id, a.analyzeChanges repo changes) ∈ (emitted config repo changes).lists := by
    rw [lists_emitted]
    exact List.mem_map_of_mem (List.mem_of_find?_eq_some h)
  have hany := (List.find?_eq_some_iff_append.mp h).1
  obtain ⟨t, ht, hpath⟩ := List.any_eq_true.mp hany
  have hpath : t.path = path := of_decide_eq_true hpath
  have hall : t ∈ (emitted config repo changes).all := List.mem_flatMap.mpr ⟨_, hmem, ht⟩
  obtain ⟨t', ht', hsame⟩ := (emitted config repo changes).covers_renumber hall
  rw [← analyze_eq_renumber] at ht'
  obtain ⟨b, hb, hid, -⟩ := emitter_of_mem ht'
  have hsame : t'.path = path := hsame.trans hpath
  rw [hsame, h] at hb
  have hab : a = b := Option.some.inj hb
  exact ⟨t', ht', hsame, by rw [← hid, hab]⟩

end AdapterRegistry

end Jitgen
