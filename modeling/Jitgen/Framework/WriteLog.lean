import Mathlib.Data.List.Nodup
import Mathlib.Data.List.Lattice

/-!
# Logs of writes

A list of writes to keys, newest first. A key holds what was last written to it.
-/

namespace Jitgen

variable {κ ν : Type} [BEq κ]

/-- The newest write of every key. -/
def latest : List (κ × ν) → List (κ × ν)
  | [] => []
  | w :: log => w :: (latest log).filter fun e => !e.1 == w.1

theorem latest_sublist (log : List (κ × ν)) : (latest log).Sublist log := by
  induction log with
  | nil => exact List.Sublist.refl _
  | cons w log ih => exact (List.filter_sublist.trans ih).cons_cons w

variable [LawfulBEq κ] {log : List (κ × ν)} {k : κ} {v : ν}

theorem nodup_latest (log : List (κ × ν)) : ((latest log).map Prod.fst).Nodup := by
  induction log with
  | nil => exact List.nodup_nil
  | cons w log ih =>
    rw [latest, List.map_cons, List.nodup_cons]
    constructor
    · intro hmem
      have ⟨w', hw', heq⟩ := List.mem_map.mp hmem
      simpa [heq] using (List.mem_filter.mp hw').2
    · exact ih.sublist (List.filter_sublist.map Prod.fst)

theorem mem_latest : (k, v) ∈ latest log ↔ log.lookup k = some v := by
  induction log with
  | nil => simp [latest]
  | cons w log ih =>
    rw [latest, List.mem_cons, List.mem_filter, ih, List.lookup_cons]
    by_cases hk : k = w.1
    · simp [hk, Prod.ext_iff, eq_comm]
    · have hne : (k == w.1) = false := beq_eq_false_iff_ne.mpr hk
      have hpair : (k, v) ≠ w := fun h => hk (congrArg Prod.fst h)
      simp [hne, hpair]

theorem mem_of_lookup (h : log.lookup k = some v) : (k, v) ∈ log :=
  (latest_sublist log).subset (mem_latest.mpr h)

theorem lookup_of_mem_map (h : k ∈ log.map Prod.fst) : ∃ v, log.lookup k = some v := by
  have ⟨w, hw, heq⟩ := List.mem_map.mp h
  rw [← Option.isSome_iff_exists, List.lookup_isSome_iff]
  exact ⟨w, hw, beq_iff_eq.mpr heq.symm⟩

theorem latest_eq_self (h : (log.map Prod.fst).Nodup) : latest log = log := by
  induction log with
  | nil => rfl
  | cons w log ih =>
    have ⟨hw, hlog⟩ := List.nodup_cons.mp h
    rw [latest, ih hlog, List.filter_eq_self.mpr]
    intro w' hw'
    have hne : w'.1 ≠ w.1 := fun heq => hw (heq ▸ List.mem_map_of_mem hw')
    simpa using hne

theorem nodup_of_length_latest (h : log.length ≤ (latest log).length) :
    (log.map Prod.fst).Nodup := by
  rw [← (latest_sublist log).eq_of_length_le h]
  exact nodup_latest log

end Jitgen
