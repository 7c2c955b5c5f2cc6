import Mathlib.Data.List.Nodup
import Mathlib.Data.List.Lattice

/-!
# Tables with a key

A table is a list of rows. Its statements keep the key of the rows unique.
-/

namespace Jitgen.Table

variable {ρ κ : Type} [DecidableEq κ]

/-- No two rows have one key. -/
def Unique (key : ρ → κ) (rows : List ρ) : Prop := (rows.map key).Nodup

/-- The row of a key. -/
def select (key : ρ → κ) (k : κ) (rows : List ρ) : Option ρ := rows.find? (key · = k)

/-- Change the rows of a key. -/
def update (key : ρ → κ) (k : κ) (f : ρ → ρ) (rows : List ρ) : List ρ :=
  rows.map fun r => if key r = k then f r else r

/-- Insert a row; one with its key is a conflict. -/
def insert (key : ρ → κ) (row : ρ) (rows : List ρ) : Option (List ρ) :=
  if (select key (key row) rows).isSome then none else some (rows ++ [row])

def insertOrIgnore (key : ρ → κ) (row : ρ) (rows : List ρ) : List ρ :=
  (insert key row rows).getD rows

def insertOrReplace (key : ρ → κ) (row : ρ) (rows : List ρ) : List ρ :=
  rows.filter (key · ≠ key row) ++ [row]

variable {key : ρ → κ} {k : κ} {row r : ρ} {rows : List ρ} {f : ρ → ρ}

theorem select_eq_none_iff : select key k rows = none ↔ ∀ r ∈ rows, key r ≠ k := by
  simp [select]

theorem mem_of_select (h : select key k rows = some r) : r ∈ rows ∧ key r = k := by
  have hkey := List.find?_some (p := fun r => decide (key r = k)) h
  exact ⟨List.mem_of_find?_eq_some h, of_decide_eq_true hkey⟩

theorem select_of_mem (hrows : Unique key rows) (h : r ∈ rows) :
    select key (key r) rows = some r := by
  cases hfound : select key (key r) rows with
  | none => exact absurd rfl (select_eq_none_iff.mp hfound r h)
  | some r' =>
    have ⟨hr', hkey⟩ := mem_of_select hfound
    rw [List.inj_on_of_nodup_map hrows hr' h hkey]

theorem countP_eq_zero_iff : rows.countP (key · = k) = 0 ↔ select key k rows = none := by
  rw [List.countP_eq_zero, select_eq_none_iff]
  simp

theorem map_key_update (hf : ∀ r, key (f r) = key r) :
    (update key k f rows).map key = rows.map key := by
  unfold update
  rw [List.map_map]
  apply List.map_congr_left
  intro r _
  rw [Function.comp_apply]
  split_ifs
  · exact hf r
  · rfl

theorem unique_update (hf : ∀ r, key (f r) = key r) (h : Unique key rows) :
    Unique key (update key k f rows) := by
  unfold Unique
  rw [map_key_update hf]
  exact h

theorem select_update (hf : ∀ r, key (f r) = key r) (k' : κ) :
    select key k' (update key k f rows) =
      if k' = k then (select key k' rows).map f else select key k' rows := by
  induction rows with
  | nil => simp [select, update]
  | cons r rows ih =>
    unfold select update at ih ⊢
    rw [List.map_cons, List.find?_cons, List.find?_cons, ih]
    by_cases hk : k' = k
    · by_cases hr : key r = k
      · simp [hk, hr, hf]
      · simp [hk, hr]
    · by_cases hr : key r = k
      · have hne : key (f r) ≠ k' := by
          rw [hf, hr]
          exact Ne.symm hk
        simp [hk, hr, hne, Ne.symm hk]
      · by_cases hr' : key r = k'
        · simp [hk, hr']
        · simp [hk, hr, hr']

theorem update_of_none (h : select key k rows = none) : update key k f rows = rows := by
  unfold update
  conv_rhs => rw [← List.map_id rows]
  apply List.map_congr_left
  intro r hr
  rw [if_neg (select_eq_none_iff.mp h r hr)]
  rfl

theorem mem_update (h : r ∈ update key k f rows) : ∃ r' ∈ rows, r = r' ∨ r = f r' := by
  have ⟨r', hr', heq⟩ := List.mem_map.mp h
  refine ⟨r', hr', ?_⟩
  split_ifs at heq
  · exact .inr heq.symm
  · exact .inl heq.symm

omit [DecidableEq κ] in
theorem unique_filter (p : ρ → Bool) (h : Unique key rows) : Unique key (rows.filter p) :=
  h.sublist (List.filter_sublist.map key)

theorem insert_of_none (h : select key (key row) rows = none) :
    insert key row rows = some (rows ++ [row]) := by
  simp [insert, h]

omit [DecidableEq κ] in
theorem unique_append (hrows : Unique key rows) (h : ∀ r ∈ rows, key r ≠ key row) :
    Unique key (rows ++ [row]) := by
  unfold Unique
  rw [List.map_append, List.map_singleton, List.nodup_append]
  refine ⟨hrows, List.nodup_singleton _, ?_⟩
  intro k hk k' hk'
  have ⟨r, hr, hkey⟩ := List.mem_map.mp hk
  rw [List.mem_singleton.mp hk', ← hkey]
  exact h r hr

theorem select_append (row : ρ) (h : select key (key row) rows = none) (k' : κ) :
    select key k' (rows ++ [row]) = if k' = key row then some row else select key k' rows := by
  unfold select at h ⊢
  rw [List.find?_append]
  by_cases hk : k' = key row
  · simp [hk, h]
  · simp [hk, Ne.symm hk]

theorem unique_insertOrIgnore (hrows : Unique key rows) :
    Unique key (insertOrIgnore key row rows) := by
  unfold insertOrIgnore insert
  cases h : select key (key row) rows with
  | none => exact unique_append hrows (select_eq_none_iff.mp h)
  | some r => exact hrows

theorem insertOrIgnore_of_some (h : select key (key row) rows = some r) :
    insertOrIgnore key row rows = rows := by
  simp [insertOrIgnore, insert, h]

theorem unique_insertOrReplace (hrows : Unique key rows) :
    Unique key (insertOrReplace key row rows) := by
  apply unique_append (unique_filter _ hrows)
  intro r hr
  exact of_decide_eq_true (List.mem_filter.mp hr).2

end Jitgen.Table
