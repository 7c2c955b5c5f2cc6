import Jitgen.Gitintake.Visible
import Jitgen.Orchestrator.Analyze
import Jitgen.Properties.DetectionCoverage
import Jitgen.Properties.IgnoredPaths
import Jitgen.Properties.TargetRanking
import Jitgen.State.FsUtil

/-!
# What a plan covers

A plan is made from a change set. It has a target for a changed file unless its budget is spent on
targets that score no lower, and each of its targets is in a changed file that is not ignored.
-/

namespace Jitgen

open Text

namespace TargetSel

private theorem score_le_of_beforeTarget {t u : Target} (h : beforeTarget t u = true) :
    Binary64.le (score u) (score t) = true := by
  have hfirst : (compare (score u).key (score t).key).isLE = true := by
    rw [beforeTarget_eq] at h
    simp only [compareKeys, compareLex] at h
    cases hcmp : compare (score u).key (score t).key with
    | lt => rfl
    | eq => rfl
    | gt =>
      rw [hcmp] at h
      cases h
  rw [Binary64.le_iff]
  exact ⟨score_isNaN u, score_isNaN t, Std.isLE_compare.mp hfirst⟩

private theorem length_select_le (targets : List Target) (k : Nat) :
    (select targets k).length ≤ k :=
  TopK.length_topK_le k _

private theorem select_ids {targets : List Target} (hids : (targets.map Target.id).Nodup)
    (k : Nat) :
    ((select targets k).map (·.target.id)).Nodup := by
  rw [select_eq, List.map_map]
  exact TopK.map_topK_nodup hids k

private theorem exists_of_mem_select {targets : List Target} {k : Nat} {rt : RankedTarget}
    (h : rt ∈ select targets k) : ∃ t ∈ targets, rt = rankOne t := by
  rw [select_eq] at h
  obtain ⟨t, ht, rfl⟩ := List.mem_map.mp h
  exact ⟨t, TopK.mem_of_mem_topK ht, rfl⟩

private theorem select_of_notMem {targets : List Target} {k : Nat} {t : Target} (ht : t ∈ targets)
    (hnot : rankOne t ∉ select targets k) :
    (select targets k).length = k ∧
      ∀ rt ∈ select targets k, Binary64.le (score t) rt.score = true := by
  rw [mem_select] at hnot
  obtain ⟨hlength, hbefore⟩ := TopK.topK_of_notMem sorts_beforeTarget ht hnot
  rw [select_eq, List.length_map]
  refine ⟨hlength, fun rt hrt => ?_⟩
  obtain ⟨u, hu, rfl⟩ := List.mem_map.mp hrt
  exact score_le_of_beforeTarget (hbefore u hu)

end TargetSel

private theorem nextId_injective : Function.Injective nextId := by
  intro m n h
  have hdigits : ofNat m = ofNat n := List.append_cancel_left h
  exact ofNat_injective hdigits

section

variable [TreeSitter]

private theorem AdapterRegistry.analyze_ids (reg : AdapterRegistry) (repo : RepoSnapshot)
    (changes : ChangeSet) : ((reg.analyze repo changes).map Target.id).Nodup := by
  have hids : (reg.analyze repo changes).map Target.id =
      (List.range (keepOwned [] (reg.foundTargets repo changes)).length).map nextId := by
    rw [AdapterRegistry.analyze]
    apply List.ext_getElem
    · simp
    · intro i h₁ h₂
      simp
  rw [hids]
  exact (List.nodup_map_iff nextId_injective).mpr List.nodup_range

private theorem AdapterRegistry.changed_of_mem {config : RepoConfig} {repo : RepoSnapshot}
    {changes : ChangeSet} {t : Target} (ht : t ∈ (withBuiltins config).analyze repo changes) :
    ∃ fc ∈ changes.files, fc.path = t.path ∧ fc.kind ≠ .deleted ∧ fc.hunks ≠ [] := by
  obtain ⟨a, -, -, hcontent⟩ := emitter_of_mem ht
  obtain ⟨t', ht', hsame⟩ := List.mem_map.mp hcontent
  have hpath : t'.content.path = t.content.path := congrArg Target.path hsame
  exact (exists_emitted_iff.mp ⟨t', ht', hpath⟩).2

variable [RepoYaml] {differ : Differ} {repo : Repository} {base head : Oid} {k : Nat} {p : Plan}

/-- The targets that a plan ranks. -/
def Plan.targets (p : Plan) : List Target :=
  (AdapterRegistry.withBuiltins p.config).analyze p.snapshot p.changes

private theorem plan_ok (h : plan differ repo base head k = .ok p) :
    diffRevisions differ repo base head = .ok p.changes ∧
      p.ranked = TargetSel.select p.targets k := by
  unfold plan at h
  simp only [bind_eq_ok] at h
  obtain ⟨changes, hchanges, snapshot, -, ⟨config, warnings⟩, -, h⟩ := h
  cases h
  exact ⟨mapError_eq_ok.mp hchanges, rfl⟩

/-- What a plan takes from the changes, and what it leaves. -/
theorem plan_accounts (h : plan differ repo base head k = .ok p) :
    p.ranked.length ≤ k ∧ (p.ranked.map (·.target.id)).Nodup ∧
      (∀ rt ∈ p.ranked, ∃ fc ∈ p.changes.files, fc.path = rt.target.path ∧ fc.Visible ∧
        fc.kind ≠ .deleted ∧ fc.hunks ≠ []) ∧
      ∀ a ∈ AdapterRegistry.withBuiltins p.config, (a.detect p.snapshot).detected = true →
        ∀ fc ∈ p.changes.files, fc.kind ≠ .deleted → fc.hunks ≠ [] → (a.owns fc.path).isSome →
        (∃ rt ∈ p.ranked, rt.target.path = fc.path) ∨
          (p.ranked.length = k ∧ ∀ t ∈ p.targets, t.path = fc.path →
            ∀ rt ∈ p.ranked, Binary64.le (TargetSel.score t) rt.score = true) := by
  obtain ⟨hdiff, hranked⟩ := plan_ok h
  obtain ⟨-, -, diff, -, -, -, -, -, hfiles⟩ := diffRevisions_ok hdiff
  rw [hranked]
  refine ⟨TargetSel.length_select_le _ _, TargetSel.select_ids (AdapterRegistry.analyze_ids _ _ _) k,
    fun rt hrt => ?_, fun a ha hdetected fc hfc hpresent hhunks howned => ?_⟩
  · obtain ⟨t, ht, rfl⟩ := TargetSel.exists_of_mem_select hrt
    obtain ⟨fc, hfc, hpath, hkind, hhunks⟩ := AdapterRegistry.changed_of_mem ht
    exact ⟨fc, hfc, hpath, collectFileChanges_visible hfiles fc hfc, hkind, hhunks⟩
  · by_cases htaken : ∃ rt ∈ TargetSel.select p.targets k, rt.target.path = fc.path
    · exact .inl htaken
    · right
      have hnot : ∀ t, t.path = fc.path → TargetSel.rankOne t ∉ TargetSel.select p.targets k :=
        fun t hpath hmem => htaken ⟨_, hmem, hpath⟩
      obtain ⟨t, ht, hpath⟩ := exists_target ha hdetected hfc hpresent hhunks howned
      refine ⟨(TargetSel.select_of_notMem ht (hnot t hpath)).1, fun u hu hupath => ?_⟩
      exact (TargetSel.select_of_notMem hu (hnot u hupath)).2

end

def keyTree : GitTree :=
  .ofEntries [⟨some "id_rsa", .blob secretLine⟩, ⟨some "src/a.rs", .blob secretLine⟩,
    ⟨some "src/b.rs", .blob secretLine⟩]

def keyRepository : Repository where
  revparse := fun rev => some rev
  tree := fun oid => .ok (if oid = "base" then .ofEntries [] else keyTree)

/-- Every file of the head is new. -/
def allAdded : Differ where
  rawDeltas := fun _ head => .ok head.entries.length
  similar := fun _ head => .ok (head.entries.map fun e => (⟨.added, e.path, e.path⟩, [⟨1, 1⟩]))

abbrev noYaml : RepoYaml := ⟨Unit, fun _ => .ok (), fun _ => [], fun _ => .ok .default⟩

/-- The budget is kept, and the key is in no target. -/
theorem key_not_planned :
    letI := noTrees
    letI := noYaml
    ∃ p, plan allAdded keyRepository "base" "head" 1 = .ok p ∧ p.ranked.length ≤ 1 ∧
      ∀ rt ∈ p.ranked, rt.target.path ≠ "id_rsa" := by
  obtain ⟨p, hp⟩ := exists_ok (show (@plan noYaml noTrees allAdded keyRepository "base" "head" 1).isOk =
    true by decide +kernel)
  obtain ⟨hlength, -, hchanged, -⟩ := @plan_accounts noTrees noYaml _ _ _ _ _ _ hp
  refine ⟨p, hp, hlength, fun rt hrt hkey => ?_⟩
  obtain ⟨fc, -, hpath, hvisible, -⟩ := hchanged rt hrt
  have hignored : isIgnored fc.path = false := hvisible.1
  rw [hpath, hkey] at hignored
  exact absurd hignored (by decide)

end Jitgen
