import Jitgen.Framework.PathJoin

/-!
# Lexical resolution of paths

What an absolute path denotes once `.` and `..` are resolved by its text alone, and when that lies
inside what another path denotes.
-/

namespace Jitgen.UnixPath

open Text

/-- Prefix test by components, without resolving `..`. -/
def startsWith (path base : Text) : Bool := (components base).isPrefixOf (components path)

def resolveGo (names : List Text) : List Component → List Text
  | [] => names
  | .normal s :: cs => resolveGo (names ++ [s]) cs
  | .parentDir :: cs => resolveGo names.dropLast cs
  | .curDir :: cs => resolveGo names cs
  | .rootDir :: cs => resolveGo [] cs

/-- The names below the root that an absolute path denotes. -/
def resolve (path : Text) : List Text := resolveGo [] (components path)

/-- A path denotes the place of another or one inside it. -/
def Inside (base path : Text) : Prop := resolve base <+: resolve path

instance (base path : Text) : Decidable (Inside base path) :=
  inferInstanceAs (Decidable (_ <+: _))

/-- Whether a path goes up. -/
def Ascends (path : Text) : Prop := Component.parentDir ∈ components path

instance (path : Text) : Decidable (Ascends path) := inferInstanceAs (Decidable (_ ∈ _))

/-- The textual test against the place that a path denotes. -/
def StartsAt (base path : Text) : Prop :=
  Component.rootDir :: (resolve base).map .normal <+: components path

instance (base path : Text) : Decidable (StartsAt base path) :=
  inferInstanceAs (Decidable (_ <+: _))

example : resolve "/a/../b/./c" = [("b" : Text), "c"] := by decide

theorem resolveGo_normals (names ss : List Text) :
    resolveGo names (ss.map .normal) = names ++ ss := by
  induction ss generalizing names with
  | nil => simp [resolveGo]
  | cons s ss ih => simp [resolveGo, ih]

theorem segments_normal {segments : List Text}
    (h : Component.parentDir ∉ segments.filterMap segment) :
    ∃ ss : List Text, segments.filterMap segment = ss.map .normal := by
  induction segments with
  | nil => exact ⟨[], rfl⟩
  | cons s segments ih =>
    have hcases : segment s = none ∨ segment s = some .parentDir ∨ segment s = some (.normal s) := by
      unfold segment
      split_ifs <;> simp
    rcases hcases with hs | hs | hs
    · rw [List.filterMap_cons_none hs] at h ⊢
      exact ih h
    · rw [List.filterMap_cons_some hs] at h
      simp at h
    · rw [List.filterMap_cons_some hs] at h ⊢
      obtain ⟨ss, hss⟩ := ih fun hmem => h (List.mem_cons_of_mem _ hmem)
      exact ⟨s :: ss, by rw [hss, List.map_cons]⟩

theorem components_of_not_ascends {path : Text} (habs : isAbsolute path = true)
    (h : ¬ Ascends path) : components path = .rootDir :: (resolve path).map .normal := by
  have hcomps := components_of_absolute habs
  unfold Ascends at h
  rw [hcomps] at h
  obtain ⟨ss, hss⟩ := segments_normal fun hmem => h (List.mem_cons_of_mem _ hmem)
  have hresolve : resolve path = ss := by
    unfold resolve
    rw [hcomps, hss]
    exact resolveGo_normals [] ss
  rw [hresolve, hcomps, hss]

theorem inside_iff_startsAt (base : Text) {path : Text} (hpath : isAbsolute path = true)
    (hp : ¬ Ascends path) : Inside base path ↔ StartsAt base path := by
  have hinj : Function.Injective Component.normal := fun s t h => Component.normal.inj h
  unfold Inside StartsAt
  rw [components_of_not_ascends hpath hp, List.prefix_cons_inj,
    List.prefix_map_iff_of_injective hinj]

theorem inside_iff_startsWith {base path : Text} (hbase : isAbsolute base = true)
    (hpath : isAbsolute path = true) (hb : ¬ Ascends base) (hp : ¬ Ascends path) :
    Inside base path ↔ startsWith path base = true := by
  rw [inside_iff_startsAt base hpath hp]
  unfold StartsAt startsWith
  rw [← components_of_not_ascends hbase hb, List.isPrefixOf_iff_prefix]

end Jitgen.UnixPath
