import Jitgen.Adapters.Discovery
import Jitgen.Framework.Numerals

/-!
# Where targets are listed

The targets of a change set stand in the order of the adapters and, for each adapter, of the changed
files. How many a file contributes does not depend on what is listed before it.
-/

namespace Jitgen

open Text

theorem nextId_inj {m n : Nat} : nextId m = nextId n ↔ m = n := by
  constructor
  · intro h
    have hdigits : ofNat m = ofNat n := List.append_cancel_left h
    rw [← digitsValue_ofNat m, hdigits, digitsValue_ofNat]
  · intro h
    rw [h]

/-- A target without its id. -/
def Target.content (t : Target) : Target := { t with id := [] }

/-- Extractions that found the same, whatever ids they gave. -/
def SameFound (st st' : Extraction) : Prop :=
  st.targets.map Target.content = st'.targets.map Target.content ∧ st.unmatched = st'.unmatched

private theorem extractHunk_content {root : SyntaxNode} {kinds : List (Text × SymbolKind)}
    {source : Bytes} {path : Text} {adapter : AdapterId} {capped : List LineRange}
    {st st' : Extraction} (h : SameFound st st') (hunk : LineRange) :
    SameFound (extractHunk root kinds source path adapter capped st hunk)
      (extractHunk root kinds source path adapter capped st' hunk) := by
  have hleft : SameFound { st with unmatched := st.unmatched ++ [hunk] }
      { st' with unmatched := st'.unmatched ++ [hunk] } :=
    ⟨h.1, congrArg (· ++ [hunk]) h.2⟩
  unfold extractHunk
  cases enclosing root (hunk.start - 1) kinds with
  | none => exact hleft
  | some found =>
    cases hspan : nodeSpan found.1.node with
    | none => simpa only [hspan] using hleft
    | some span =>
      have hany : ∀ ts : List Target, (ts.any fun t => t.path = path ∧ t.span = span) =
          ((ts.map Target.content).any fun t => t.path = path ∧ t.span = span) := by
        intro ts
        rw [List.any_map]
        rfl
      have hsame : (st.targets.any fun t => t.path = path ∧ t.span = span) =
          st'.targets.any fun t => t.path = path ∧ t.span = span := by
        rw [hany, h.1, ← hany]
      simp only [hspan, hsame]
      split_ifs
      · exact h
      · exact ⟨by simp [h.1, Target.content], h.2⟩

private theorem fallbackHunks_content (path : Text) (adapter : AdapterId) (hunks : List LineRange)
    (seq seq' : Nat) : (fallbackHunks path adapter hunks seq).1.map Target.content =
      (fallbackHunks path adapter hunks seq').1.map Target.content := by
  unfold fallbackHunks
  apply List.ext_getElem
  · simp
  · intro i h₁ h₂
    simp [Target.content]

section

variable [TreeSitter]

/-- The next id a file starts from does not matter for what is found in it. -/
private theorem extractTargets_content (lang : Option Lang) (source : Bytes) (path : Text)
    (adapter : AdapterId) (hunks : List LineRange) (seq seq' : Nat) :
    (extractTargets lang source path adapter hunks seq).1.map Target.content =
      (extractTargets lang source path adapter hunks seq').1.map Target.content := by
  have hgrammar : ∀ lang, ((extractWithGrammar lang source path adapter hunks seq).map
      fun x => x.1.map Target.content) =
      (extractWithGrammar lang source path adapter hunks seq').map
        fun x => x.1.map Target.content := by
    intro lang
    unfold extractWithGrammar
    cases grammarTree lang source with
    | none => rfl
    | some root =>
      have hfold : ∀ (capped todo : List LineRange) (st st' : Extraction), SameFound st st' →
          SameFound (todo.foldl (extractHunk root lang.symbolKinds source path adapter capped) st)
            (todo.foldl (extractHunk root lang.symbolKinds source path adapter capped) st') := by
        intro capped todo
        induction todo with
        | nil => exact fun st st' h => h
        | cons hunk todo ih => exact fun st st' h => ih _ _ (extractHunk_content h hunk)
      obtain ⟨htargets, hunmatched⟩ :=
        hfold (hunks.take maxHunks) (hunks.take maxHunks) ⟨[], [], seq⟩ ⟨[], [], seq'⟩ ⟨rfl, rfl⟩
      simp only [Option.map_some, List.map_append, htargets, hunmatched]
      rw [fallbackHunks_content]
  unfold extractTargets
  split_ifs
  · rfl
  · cases lang with
    | none => exact fallbackHunks_content _ _ _ _ _
    | some lang =>
      have h := hgrammar lang
      simp only [Option.bind_some]
      cases h₁ : extractWithGrammar lang source path adapter hunks seq with
      | none =>
        cases h₂ : extractWithGrammar lang source path adapter hunks seq' with
        | none => exact fallbackHunks_content _ _ _ _ _
        | some y => simp [h₁, h₂] at h
      | some x =>
        cases h₂ : extractWithGrammar lang source path adapter hunks seq' with
        | none => simp [h₁, h₂] at h
        | some y =>
          rw [h₁, h₂] at h
          exact Option.some.inj h

/-- Every target is one of the file, for the adapter. -/
private theorem mem_extractTargets {lang : Option Lang} {source : Bytes} {path : Text}
    {adapter : AdapterId} {hunks : List LineRange} {seq : Nat} {t : Target}
    (h : t ∈ (extractTargets lang source path adapter hunks seq).1) :
    t.path = path ∧ t.adapter = adapter := by
  have hfallback : ∀ hunks seq, t ∈ (fallbackHunks path adapter hunks seq).1 →
      t.path = path ∧ t.adapter = adapter := by
    intro hunks seq hmem
    obtain ⟨i, hi, rfl⟩ := List.mem_mapIdx.mp hmem
    exact ⟨rfl, rfl⟩
  have hhunk : ∀ root kinds capped st hunk,
      t ∈ (extractHunk root kinds source path adapter capped st hunk).targets →
      t ∈ st.targets ∨ (t.path = path ∧ t.adapter = adapter) := by
    intro root kinds capped st hunk hmem
    unfold extractHunk at hmem
    split at hmem
    · exact .inl hmem
    · split at hmem
      · exact .inl hmem
      · split_ifs at hmem
        · exact .inl hmem
        · rcases List.mem_append.mp hmem with hold | hnew
          · exact .inl hold
          · rw [List.mem_singleton.mp hnew]
            exact .inr ⟨rfl, rfl⟩
  have hfold : ∀ root kinds capped (todo : List LineRange) st,
      t ∈ (todo.foldl (extractHunk root kinds source path adapter capped) st).targets →
      t ∈ st.targets ∨ (t.path = path ∧ t.adapter = adapter) := by
    intro root kinds capped todo
    induction todo with
    | nil => exact fun st hmem => .inl hmem
    | cons hunk todo ih =>
      intro st hmem
      rcases ih _ hmem with hmem | hdone
      · exact hhunk _ _ _ _ _ hmem
      · exact .inr hdone
  unfold extractTargets at h
  split_ifs at h
  · cases h
  · cases lang with
    | none => exact hfallback _ _ h
    | some lang =>
      simp only [Option.bind_some] at h
      unfold extractWithGrammar at h
      cases htree : grammarTree lang source with
      | none =>
        simp only [htree, Option.map_none, Option.getD_none] at h
        exact hfallback _ _ h
      | some root =>
        simp only [htree, Option.map_some, Option.getD_some] at h
        rcases List.mem_append.mp h with h | h
        · rcases hfold _ _ _ _ _ h with hnil | hdone
          · cases hnil
          · exact hdone
        · exact hfallback _ _ h

/-- What the analysis of a change set looks at. -/
structure ChangeAnalysis where
  registry : AdapterRegistry
  repo : RepoSnapshot
  changes : ChangeSet

/-- One changed file under one adapter. -/
abbrev Block := LanguageAdapter × FileChange

namespace ChangeAnalysis

variable (run : ChangeAnalysis)

def targets : List Target := run.registry.analyze run.repo run.changes

omit [TreeSitter] in
/-- The detected adapters, in the order of the registry. -/
def adapters : List LanguageAdapter :=
  ((run.registry.detect run.repo).map Prod.fst).filterMap run.registry.adapter

/-- The changed files under each detected adapter, in the order they are analyzed. -/
def blocks : List Block := run.adapters.flatMap fun a => run.changes.files.map (a, ·)

/-- What an adapter finds in a changed file. -/
def found (b : Block) : List Target :=
  if b.2.kind = .deleted then []
  else
    match b.1.owns b.2.path with
    | none => []
    | some lang =>
      (extractTargets lang ((run.repo.read b.2.path).getD []) b.2.path b.1.id b.2.hunks 0).1

/-- The adapter that finds a target in a path first. -/
def pathOwner (path : Text) : Option AdapterId :=
  (run.blocks.find? fun b => b.2.path = path && !(run.found b).isEmpty).map (·.1.id)

/-- What is listed of a block: everything, or nothing when another adapter has the path. -/
def kept (b : Block) : List Target :=
  if run.pathOwner b.2.path = some b.1.id then run.found b else []

/-- How many targets are listed before the `n`-th block. -/
def targetsBefore (n : Nat) : Nat :=
  ((run.blocks.take n).map fun b => (run.kept b).length).sum

variable {run}

theorem mem_found {b : Block} {t : Target} (h : t ∈ run.found b) :
    t.path = b.2.path ∧ t.adapter = b.1.id := by
  unfold found at h
  split at h
  · cases h
  · split at h
    · cases h
    · exact mem_extractTargets h

theorem analyzeOwned_content (a : LanguageAdapter) (files : List FileChange) (seq : Nat) :
    (analyzeOwned a run.repo files seq).map Target.content =
      (files.flatMap fun fc => run.found (a, fc)).map Target.content := by
  induction files generalizing seq with
  | nil => rfl
  | cons fc files ih =>
    rw [List.flatMap_cons, List.map_append]
    unfold analyzeOwned found
    split_ifs with hdeleted
    · exact ih seq
    · cases howns : a.owns fc.path with
      | none =>
        exact ih seq
      | some lang =>
        simp only [List.map_append]
        rw [ih, extractTargets_content _ _ _ _ _ seq 0]
        rfl

private theorem foundTargets_content :
    (run.registry.foundTargets run.repo run.changes).map Target.content =
      (run.blocks.flatMap run.found).map Target.content := by
  unfold AdapterRegistry.foundTargets blocks adapters
  generalize (run.registry.detect run.repo).map Prod.fst = ids
  induction ids with
  | nil => rfl
  | cons id ids ih =>
    cases hadapter : run.registry.adapter id with
    | none =>
      rw [List.filterMap_cons_none hadapter, List.flatMap_cons, hadapter]
      exact ih
    | some a =>
      rw [List.filterMap_cons_some hadapter, List.flatMap_cons, List.flatMap_cons, hadapter,
        List.flatMap_append, List.map_append, List.map_append, ih, List.flatMap_map]
      exact congrArg (· ++ _) (analyzeOwned_content a run.changes.files 0)

end ChangeAnalysis

/-- The adapter of the first target in a path. -/
def firstOwner (ts : List Target) (path : Text) : Option AdapterId :=
  (ts.find? (·.path = path)).map (·.adapter)

omit [TreeSitter] in
/-- What is kept: the targets of the adapter that owns their path already, or is first in it. -/
theorem keepOwned_eq_filter (owners : List (Text × AdapterId)) (ts : List Target) :
    keepOwned owners ts =
      ts.filter fun t => (owners.lookup t.path).or (firstOwner ts t.path) = some t.adapter := by
  induction ts generalizing owners with
  | nil => rfl
  | cons t ts ih =>
    have hfirst : ∀ p, firstOwner (t :: ts) p =
        if t.path = p then some t.adapter else firstOwner ts p := by
      intro p
      by_cases hp : t.path = p <;> simp [firstOwner, hp]
    unfold keepOwned
    cases howner : owners.lookup t.path with
    | some owner =>
      have htail : keepOwned owners ts = ts.filter fun t' =>
          (owners.lookup t'.path).or (firstOwner (t :: ts) t'.path) = some t'.adapter := by
        rw [ih]
        apply List.filter_congr
        intro t' _
        rw [hfirst]
        by_cases hp : t.path = t'.path
        · simp [← hp, howner]
        · simp [hp]
      simp only [htail]
      by_cases heq : owner = t.adapter
      · rw [if_pos heq, List.filter_cons_of_pos (by simp [howner, heq])]
      · rw [if_neg heq, List.filter_cons_of_neg (by simp [howner, heq])]
    | none =>
      rw [List.filter_cons_of_pos (by simp [howner, hfirst])]
      simp only
      rw [ih]
      congr 1
      apply List.filter_congr
      intro t' _
      rw [hfirst]
      by_cases hp : t.path = t'.path
      · simp [← hp, howner]
      · have hlookup : ((t.path, t.adapter) :: owners).lookup t'.path = owners.lookup t'.path := by
          rw [List.lookup_cons, beq_false_of_ne (Ne.symm hp)]
        rw [hlookup, if_neg hp]

omit [TreeSitter] in
private theorem firstOwner_content (ts : List Target) (path : Text) :
    firstOwner (ts.map Target.content) path = firstOwner ts path := by
  unfold firstOwner
  rw [List.find?_map, Option.map_map]
  rfl

namespace ChangeAnalysis

variable {run : ChangeAnalysis}

private theorem firstOwner_found (path : Text) :
    firstOwner (run.registry.foundTargets run.repo run.changes) path = run.pathOwner path := by
  rw [← firstOwner_content, foundTargets_content, firstOwner_content]
  unfold pathOwner
  generalize run.blocks = bs
  induction bs with
  | nil => rfl
  | cons b bs ih =>
    have happend : ∀ ts, firstOwner (run.found b ++ ts) path =
        if b.2.path = path ∧ run.found b ≠ [] then some b.1.id else firstOwner ts path := by
      intro ts
      cases hfound : run.found b with
      | nil => simp
      | cons t found =>
        have hpaths : ∀ t' ∈ t :: found, t'.path = b.2.path := fun t' ht' =>
          (mem_found (hfound ▸ ht')).1
        have hid : t.adapter = b.1.id := (mem_found (hfound ▸ List.mem_cons_self)).2
        by_cases hp : b.2.path = path
        · have ht : t.path = path := (hpaths t List.mem_cons_self).trans hp
          simp [firstOwner, ht, hp, hid]
        · have hnone : (t :: found).find? (·.path = path) = none := by
            rw [List.find?_eq_none]
            intro t' ht'
            simpa [hpaths t' ht'] using hp
          rw [if_neg (fun h => hp h.1)]
          unfold firstOwner
          rw [List.find?_append, hnone, Option.none_or]
    rw [List.flatMap_cons, happend, ih]
    by_cases hfirst : b.2.path = path ∧ run.found b ≠ []
    · rw [if_pos hfirst, List.find?_cons_of_pos (by simpa using hfirst)]
      rfl
    · rw [if_neg hfirst, List.find?_cons_of_neg (by simpa using hfirst)]

/-- The list of a change set is that of its blocks. -/
private theorem targets_content :
    run.targets.map Target.content = (run.blocks.flatMap run.kept).map Target.content := by
  have hkept : ∀ b, (run.found b).filter (fun t => run.pathOwner t.path = some t.adapter) =
      run.kept b := by
    intro b
    unfold kept
    split_ifs with howner
    · apply List.filter_eq_self.mpr
      intro t ht
      obtain ⟨hpath, hid⟩ := mem_found ht
      simpa [hpath, hid] using howner
    · apply List.filter_eq_nil_iff.mpr
      intro t ht
      obtain ⟨hpath, hid⟩ := mem_found ht
      simpa [hpath, hid] using howner
  have hnumber : run.targets.map Target.content =
      (keepOwned [] (run.registry.foundTargets run.repo run.changes)).map Target.content := by
    unfold targets AdapterRegistry.analyze
    apply List.ext_getElem
    · simp
    · intro i h₁ h₂
      simp [Target.content]
  have hfilter : keepOwned [] (run.registry.foundTargets run.repo run.changes) =
      (run.registry.foundTargets run.repo run.changes).filter
        fun t => run.pathOwner t.path = some t.adapter := by
    rw [keepOwned_eq_filter]
    apply List.filter_congr
    intro t _
    rw [firstOwner_found]
    rfl
  calc run.targets.map Target.content
      = ((run.registry.foundTargets run.repo run.changes).filter
          fun t => run.pathOwner t.path = some t.adapter).map Target.content := by
        rw [hnumber, hfilter]
    _ = ((run.registry.foundTargets run.repo run.changes).map Target.content).filter
          fun t => run.pathOwner t.path = some t.adapter := by
        rw [List.filter_map]
        rfl
    _ = ((run.blocks.flatMap run.found).filter
          fun t => run.pathOwner t.path = some t.adapter).map Target.content := by
        rw [foundTargets_content, List.filter_map]
        rfl
    _ = (run.blocks.flatMap run.kept).map Target.content := by
        rw [List.filter_flatMap]
        simp only [hkept]

theorem id_of_targets {m : Nat} {t : Target} (h : run.targets[m]? = some t) : t.id = nextId m := by
  unfold targets AdapterRegistry.analyze at h
  rw [List.getElem?_mapIdx] at h
  obtain ⟨t', -, rfl⟩ := Option.map_eq_some_iff.mp h
  rfl

end ChangeAnalysis

omit [TreeSitter] in
theorem exists_part {α β : Type} (f : α → List β) {l : List α} {m : Nat}
    (hm : m < (l.flatMap f).length) :
    ∃ n a k, l[n]? = some a ∧ k < (f a).length ∧
      m = ((l.take n).map fun a => (f a).length).sum + k ∧ (l.flatMap f)[m]? = (f a)[k]? := by
  induction l generalizing m with
  | nil => simp at hm
  | cons a l ih =>
    rw [List.flatMap_cons] at hm ⊢
    by_cases hhere : m < (f a).length
    · exact ⟨0, a, m, rfl, hhere, by simp, List.getElem?_append_left hhere⟩
    · have hlater : m - (f a).length < (l.flatMap f).length := by
        rw [List.length_append] at hm
        omega
      obtain ⟨n, b, k, hb, hk, heq, hget⟩ := ih hlater
      refine ⟨n + 1, b, k, hb, hk, ?_, ?_⟩
      · rw [List.take_succ_cons, List.map_cons, List.sum_cons]
        omega
      · rw [List.getElem?_append_right (by omega)]
        exact hget

namespace ChangeAnalysis

variable {run : ChangeAnalysis}

theorem exists_block {m : Nat} {t : Target} (h : run.targets[m]? = some t) :
    ∃ n b k, run.blocks[n]? = some b ∧ ((run.kept b).map Target.content)[k]? = some t.content ∧
      m = run.targetsBefore n + k := by
  have hlen : run.targets.length = (run.blocks.flatMap run.kept).length := by
    simpa using congrArg List.length (@targets_content _ run)
  have hm : m < (run.blocks.flatMap run.kept).length := by
    rw [← hlen]
    exact (List.getElem?_eq_some_iff.mp h).1
  obtain ⟨n, b, k, hb, -, heq, hget⟩ := exists_part run.kept hm
  refine ⟨n, b, k, hb, ?_, heq⟩
  rw [List.getElem?_map, ← hget, ← List.getElem?_map, ← targets_content, List.getElem?_map, h]
  rfl

end ChangeAnalysis

end

/-- No source has a syntax tree, so every hunk is a target. -/
abbrev noTrees : TreeSitter := ⟨fun _ _ => none, fun h => by cases h⟩

def oneLine : LineRange := ⟨1, 1, by decide, by decide⟩

end Jitgen
