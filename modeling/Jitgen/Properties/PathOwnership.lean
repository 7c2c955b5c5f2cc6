import Jitgen.Adapters.Dedup

/-!
# Each path belongs to the first adapter that emitted a target in it
-/

namespace Jitgen

open Text

namespace EmittedTargets

/-- The final list leaves every path to the first adapter in it, and to no other. -/
structure KeptBy (e : EmittedTargets) (out : List Target) : Prop where
  exactly_first : ∀ path, (out.filter (·.path = path)).map Target.content =
    (e.firstTargets path).map Target.content
  first_only : ∀ t ∈ out, (e.firstEmitter t.path).map Prod.fst = some t.adapter
  in_order : (out.map Target.content).Sublist (e.all.map Target.content)
  covers : ∀ t ∈ e.all, ∃ t' ∈ out, t'.path = t.path
  numbered : ∀ i t, out[i]? = some t → t.id = nextId i

variable (e : EmittedTargets)

private theorem keptBy_renumber : e.KeptBy (renumber (keepOwned [] e.all)) where
  exactly_first := e.exactly_first_renumber
  first_only := fun _ => e.first_only_renumber
  in_order := by
    rw [renumber_content, keepOwned_eq_filter]
    exact List.filter_sublist.map _
  covers := fun _ => e.covers_renumber
  numbered := fun _ _ => id_of_renumber

end EmittedTargets

/-- Whatever the adapters emitted, the passes leave each path to its first adapter, and they are how
a change set is analyzed. -/
theorem dedup_keeps_first [TreeSitter] :
    (∀ e : EmittedTargets, ∃ out, dedupTargets e.all = some out ∧ e.KeptBy out) ∧
      ∀ config repo changes, dedupTargets (AdapterRegistry.emitted config repo changes).all =
        some ((AdapterRegistry.withBuiltins config).analyze repo changes) := by
  constructor
  · intro e
    exact ⟨_, dedupTargets_eq e.all, e.keptBy_renumber⟩
  · exact AdapterRegistry.analyze_eq_dedup

end Jitgen
