import Jitgen.Orchestrator.TargetSel

/-!
# Which targets are selected

The score is a number of the unit interval and never falls when the risk, the weight of the kind or
the size of a target rises, also after every rounding. So the selection is an honest one: it does
not depend on the order in which targets were found, a riskier target is never dropped for being
riskier, and targets that are not taken do not matter.
-/

namespace Jitgen

open Text Binary64

namespace TargetSel

/-- A number of the unit interval. -/
def InUnit (a : Binary64) : Prop := le zero a = true ∧ le a one = true

theorem InUnit.isFinite {a : Binary64} (h : InUnit a) : a.isFinite = true :=
  isFinite_of_le h.1 h.2 (by decide) (by decide)

private theorem kindWeight_inUnit (k : SymbolKind) : InUnit (kindWeight k) := by
  cases k <;> exact ⟨by decide, by decide⟩

private theorem kindWeight_self (k : SymbolKind) : le (kindWeight k) (kindWeight k) = true :=
  le_refl (isNaN_of_isFinite (kindWeight_inUnit k).isFinite)

private theorem sizeFactor_mono {m n : Nat} (h : m ≤ n) :
    le (sizeFactor m) (sizeFactor n) = true := by
  have hle := @ratio_mono m n 50 (by decide) (by decide) h
  obtain ⟨hnan, hnan', -⟩ := le_iff.mp hle
  exact min_le_min hnan (by decide) hnan' hle

private theorem sizeFactor_inUnit (n : Nat) : InUnit (sizeFactor n) := by
  constructor
  · have hzero : sizeFactor 0 = zero := by decide +kernel
    rw [← hzero]
    exact sizeFactor_mono (Nat.zero_le n)
  · have hle := @ratio_mono n n 50 (by decide) (by decide) (Nat.le_refl n)
    have hnan := (le_iff.mp hle).1
    rw [sizeFactor, le_iff, min_key hnan (by decide)]
    exact ⟨min_isNaN hnan, by decide, Int.min_le_right _ _⟩

/-- A weight of a part of the score. -/
structure Weight (c : Binary64) : Prop where
  finite : c.isFinite = true
  nonneg : 0 ≤ c.units
  none_finite : (mul c zero).isFinite = true
  all_finite : (mul c one).isFinite = true

variable {c a b : Binary64}

private theorem weighted_mono (hc : Weight c) (ha : InUnit a) (hb : InUnit b) (h : le a b = true) :
    le (mul c a) (mul c b) = true :=
  mul_le_mul_left hc.finite ha.isFinite hb.isFinite hc.nonneg h

private theorem inUnit_zero : InUnit zero := ⟨by decide, by decide⟩

private theorem inUnit_one : InUnit one := ⟨by decide, by decide⟩

private theorem weighted_finite (hc : Weight c) (ha : InUnit a) : (mul c a).isFinite = true :=
  isFinite_of_le (weighted_mono hc inUnit_zero ha ha.1) (weighted_mono hc ha inUnit_one ha.2)
    hc.none_finite hc.all_finite

private theorem weight_half : Weight half :=
  ⟨by decide, by decide +kernel, by decide +kernel, by decide +kernel⟩

private theorem weight_sevenTwentieths : Weight sevenTwentieths :=
  ⟨by decide, by decide +kernel, by decide +kernel, by decide +kernel⟩

private theorem weight_threeTwentieths : Weight threeTwentieths :=
  ⟨by decide, by decide +kernel, by decide +kernel, by decide +kernel⟩

/-- The score before it is restricted to the unit interval. -/
def rawScore (risk kind size : Binary64) : Binary64 :=
  add (add (mul half risk) (mul sevenTwentieths kind)) (mul threeTwentieths size)

section

variable {risk kind size risk' kind' size' : Binary64}

private theorem partial_mono (hrisk : InUnit risk) (hkind : InUnit kind) (hrisk' : InUnit risk')
    (hkind' : InUnit kind') (h : le risk risk' = true) (h' : le kind kind' = true) :
    le (add (mul half risk) (mul sevenTwentieths kind))
      (add (mul half risk') (mul sevenTwentieths kind')) = true :=
  add_le_add (weighted_finite weight_half hrisk) (weighted_finite weight_sevenTwentieths hkind)
    (weighted_finite weight_half hrisk') (weighted_finite weight_sevenTwentieths hkind')
    (weighted_mono weight_half hrisk hrisk' h)
    (weighted_mono weight_sevenTwentieths hkind hkind' h')

private theorem partial_finite (hrisk : InUnit risk) (hkind : InUnit kind) :
    (add (mul half risk) (mul sevenTwentieths kind)).isFinite = true :=
  isFinite_of_le (partial_mono inUnit_zero inUnit_zero hrisk hkind hrisk.1 hkind.1)
    (partial_mono hrisk hkind inUnit_one inUnit_one hrisk.2 hkind.2) (by decide +kernel)
    (by decide +kernel)

private theorem rawScore_mono (hrisk : InUnit risk) (hkind : InUnit kind) (hsize : InUnit size)
    (hrisk' : InUnit risk') (hkind' : InUnit kind') (hsize' : InUnit size')
    (h : le risk risk' = true) (h' : le kind kind' = true) (h'' : le size size' = true) :
    le (rawScore risk kind size) (rawScore risk' kind' size') = true :=
  add_le_add (partial_finite hrisk hkind) (weighted_finite weight_threeTwentieths hsize)
    (partial_finite hrisk' hkind') (weighted_finite weight_threeTwentieths hsize')
    (partial_mono hrisk hkind hrisk' hkind' h h')
    (weighted_mono weight_threeTwentieths hsize hsize' h'')

end

private theorem score_eq (t : Target) : score t =
    clamp (rawScore t.risk.value (kindWeight t.kind) (sizeFactor (spanLines t))) zero one := rfl

private theorem risk_inUnit (t : Target) : InUnit t.risk.value := ⟨t.risk.zero_le, t.risk.le_one⟩

private theorem score_mono {t t' : Target} (hrisk : le t.risk.value t'.risk.value = true)
    (hkind : le (kindWeight t.kind) (kindWeight t'.kind) = true)
    (hlines : spanLines t ≤ spanLines t') : le (score t) (score t') = true := by
  rw [score_eq, score_eq]
  apply clamp_le_clamp (by decide) (by decide) (by decide)
  exact rawScore_mono (risk_inUnit t) (kindWeight_inUnit t.kind) (sizeFactor_inUnit _)
    (risk_inUnit t') (kindWeight_inUnit t'.kind) (sizeFactor_inUnit _) hrisk hkind
    (sizeFactor_mono hlines)

theorem score_isNaN (t : Target) : (score t).isNaN = false :=
  (le_iff.mp (@score_mono t t (le_refl (le_iff.mp t.risk.zero_le).2.1)
    (kindWeight_self t.kind) (Nat.le_refl _))).1

private theorem score_inUnit (t : Target) : InUnit (score t) := by
  have hnan := score_isNaN t
  have hraw : (rawScore t.risk.value (kindWeight t.kind) (sizeFactor (spanLines t))).isNaN =
      false := by
    have hmono := rawScore_mono (risk_inUnit t) (kindWeight_inUnit t.kind)
      (sizeFactor_inUnit (spanLines t)) (risk_inUnit t) (kindWeight_inUnit t.kind)
      (sizeFactor_inUnit (spanLines t)) (le_refl (isNaN_of_isFinite (risk_inUnit t).isFinite))
      (kindWeight_self t.kind)
      (le_refl (isNaN_of_isFinite (sizeFactor_inUnit _).isFinite))
    exact (le_iff.mp hmono).1
  have hkey := @clamp_key _ zero one hraw (by decide) (by decide) (by decide)
  have hzero : zero.key = 0 := by decide
  have hone : one.key = 0x3FF0000000000000 := by decide
  rw [← score_eq] at hkey
  rw [hzero, hone] at hkey
  constructor
  · rw [le_iff, hzero, hkey]
    exact ⟨by decide, hnan, by omega⟩
  · rw [le_iff, hone, hkey]
    exact ⟨hnan, by decide, by omega⟩

/-- Which of two targets is taken first. -/
def beforeTarget (t u : Target) : Bool := before (rankOne t) (rankOne u)

/-- A comparison of scores that are numbers. -/
def compareKeys (t u : Target) : Ordering :=
  compareLex (fun t u => compare (score u).key (score t).key)
    (compareLex (fun t u => compareText t.path u.path) fun t u => compareText t.id u.id) t u

instance : Std.TransCmp compareText := inferInstanceAs (Std.TransCmp (List.compareLex compare))

instance : Std.LawfulEqCmp compareText :=
  inferInstanceAs (Std.LawfulEqCmp (List.compareLex compare))

theorem beforeTarget_eq (t u : Target) : beforeTarget t u = (compareKeys t u).isLE := by
  have hnan : ((score u).isNaN || (score t).isNaN) = false := by
    rw [score_isNaN, score_isNaN]
    rfl
  simp only [beforeTarget, before, compareRanked, rankOne, partialCmp, hnan, compareKeys, compareLex]
  rfl

private theorem transCmp_key :
    Std.TransCmp fun t u : Target => compare (score u).key (score t).key where
  eq_swap := Std.OrientedOrd.eq_swap
  isLE_trans h₁ h₂ := Std.TransOrd.isLE_trans h₂ h₁

private theorem transCmp_text (f : Target → Text) :
    Std.TransCmp fun t u : Target => compareText (f t) (f u) where
  eq_swap := Std.OrientedCmp.eq_swap
  isLE_trans h₁ h₂ := Std.TransCmp.isLE_trans h₁ h₂

private theorem transCmp_compareKeys : Std.TransCmp compareKeys := by
  have := transCmp_key
  have := transCmp_text Target.path
  have := transCmp_text Target.id
  unfold compareKeys
  infer_instance

theorem sorts_beforeTarget : TopK.Sorts beforeTarget where
  trans := by
    have := transCmp_compareKeys
    intro t u v htu huv
    rw [beforeTarget_eq] at *
    exact Std.TransCmp.isLE_trans htu huv
  total := by
    have := transCmp_compareKeys
    intro t u
    have hswap : compareKeys u t = (compareKeys t u).swap := Std.OrientedCmp.eq_swap
    rw [beforeTarget_eq, beforeTarget_eq, hswap]
    cases compareKeys t u <;> rfl

private theorem id_of_beforeTarget {t u : Target} (htu : beforeTarget t u = true)
    (hut : beforeTarget u t = true) : t.id = u.id := by
  have := transCmp_compareKeys
  rw [beforeTarget_eq] at htu hut
  have heq := Std.OrientedCmp.isLE_antisymm htu hut
  simp only [compareKeys, compareLex_eq_eq] at heq
  exact Std.LawfulEqCmp.eq_of_compare heq.2.2

private theorem strict_of_ids {targets : List Target} (hids : (targets.map Target.id).Nodup) :
    TopK.Strict beforeTarget targets := by
  intro t ht u hu htu hut
  exact List.inj_on_of_nodup_map hids ht hu (id_of_beforeTarget htu hut)

theorem select_eq (targets : List Target) (k : Nat) :
    select targets k = (topK beforeTarget k targets).map rankOne := by
  have hsort : (targets.mergeSort beforeTarget).map rankOne =
      (targets.map rankOne).mergeSort before :=
    List.map_mergeSort fun _ _ _ _ => rfl
  unfold select topK
  rw [List.map_take, hsort]

theorem mem_select {targets : List Target} {k : Nat} {t : Target} :
    rankOne t ∈ select targets k ↔ t ∈ topK beforeTarget k targets := by
  rw [select_eq, List.mem_map]
  constructor
  · rintro ⟨u, hu, heq⟩
    have hut : u = t := congrArg RankedTarget.target heq
    rwa [← hut]
  · intro ht
    exact ⟨t, ht, rfl⟩

/-- What is selected has a score of the unit interval; a target is selected exactly when fewer than
the budget are ahead of it; and neither the order of the targets nor a target that is not selected
matters. -/
theorem select_honest {targets : List Target} (hids : (targets.map Target.id).Nodup) (k : Nat) :
    (∀ rt ∈ select targets k, InUnit rt.score) ∧
      (∀ t, rankOne t ∈ select targets k ↔
        t ∈ targets ∧ targets.countP (TopK.ahead beforeTarget · t) < k) ∧
      (∀ targets', targets.Perm targets' → select targets' k = select targets k) ∧
      ∀ pre t post, targets = pre ++ t :: post → rankOne t ∉ select targets k →
        select (pre ++ post) k = select targets k := by
  have hstrict := strict_of_ids hids
  have hnodup := hids.of_map
  refine ⟨fun rt hrt => ?_, fun t => ?_, fun targets' hperm => ?_, ?_⟩
  · rw [select_eq] at hrt
    obtain ⟨t, -, rfl⟩ := List.mem_map.mp hrt
    exact score_inUnit t
  · rw [mem_select, TopK.mem_topK_iff sorts_beforeTarget hstrict hnodup]
  · rw [select_eq, select_eq, TopK.topK_perm sorts_beforeTarget hstrict hnodup hperm]
  · rintro pre t post rfl hnot
    rw [mem_select] at hnot
    rw [select_eq, select_eq, TopK.topK_drop sorts_beforeTarget hstrict hnodup hnot]

/-- A target whose risk, kind or size rises is still selected. -/
theorem select_raise {pre post : List Target} {t t' : Target}
    (hids : ((pre ++ t :: post).map Target.id).Nodup) (hid : t'.id = t.id) (hpath : t'.path = t.path)
    (hrisk : le t.risk.value t'.risk.value = true)
    (hkind : le (kindWeight t.kind) (kindWeight t'.kind) = true)
    (hlines : spanLines t ≤ spanLines t') (k : Nat)
    (hselected : rankOne t ∈ select (pre ++ t :: post) k) :
    rankOne t' ∈ select (pre ++ t' :: post) k := by
  have hids' : ((pre ++ t' :: post).map Target.id).Nodup := by
    rw [List.map_append, List.map_cons, hid, ← List.map_cons, ← List.map_append]
    exact hids
  have hbefore : beforeTarget t' t = true := by
    have hkey := (le_iff.mp (score_mono hrisk hkind hlines)).2.2
    have hpaths : compareText t'.path t.path = .eq := by
      rw [hpath]
      exact Std.ReflCmp.compare_self
    have hids : compareText t'.id t.id = .eq := by
      rw [hid]
      exact Std.ReflCmp.compare_self
    rw [beforeTarget_eq]
    simp only [compareKeys, compareLex, hpaths, hids]
    have hle : (compare (score t).key (score t').key).isLE = true :=
      Std.isLE_compare.mpr hkey
    cases hcmp : compare (score t).key (score t').key with
    | gt =>
      rw [hcmp] at hle
      cases hle
    | lt => rfl
    | eq => rfl
  rw [mem_select] at hselected ⊢
  exact TopK.mem_topK_promote sorts_beforeTarget (strict_of_ids hids) hids.of_map
    (strict_of_ids hids') hids'.of_map hbefore hselected

def lowRisk : RiskScore := ⟨oneFifth, by decide, by decide⟩

def highRisk : RiskScore := ⟨fourFifths, by decide, by decide⟩

private theorem one_le_one : 1 ≤ 1 := by decide

private theorem one_le_thirty : 1 ≤ 30 := by decide

private theorem one_le_eighty : 1 ≤ 80 := by decide

def changedHunk : Target :=
  ⟨"t0", "rust", "z.rs", none, .hunk, ⟨1, 1, one_le_one, one_le_one⟩, lowRisk⟩

def changedFunction : Target :=
  ⟨"t1", "rust", "a.rs", some "f", .function, ⟨1, 30, one_le_one, one_le_thirty⟩, lowRisk⟩

def riskyFunction : Target := { changedFunction with risk := highRisk }

def changedMethod : Target :=
  ⟨"t2", "rust", "b.rs", some "g", .method, ⟨1, 80, one_le_one, one_le_eighty⟩, highRisk⟩

def changes : List Target := [changedHunk, changedFunction, changedMethod]

private theorem changes_ids : (changes.map Target.id).Nodup := by decide

/-- The hunk is the one that is left out, wherever it stands. -/
theorem changes_honest :
    rankOne changedHunk ∉ select changes 2 ∧
      select [changedFunction, changedMethod] 2 = select changes 2 := by
  obtain ⟨-, hmem, -, hdrop⟩ := select_honest changes_ids 2
  have hnot : rankOne changedHunk ∉ select changes 2 := by
    rw [hmem]
    decide +kernel
  exact ⟨hnot, hdrop [] changedHunk [changedFunction, changedMethod] rfl hnot⟩

theorem riskyFunction_selected :
    rankOne riskyFunction ∈ select [changedHunk, riskyFunction, changedMethod] 2 := by
  have hselected : rankOne changedFunction ∈ select changes 2 := by
    rw [mem_select, TopK.mem_topK_iff sorts_beforeTarget (strict_of_ids changes_ids)
      changes_ids.of_map]
    decide +kernel
  have hrisk : le lowRisk.value highRisk.value = true := by decide
  exact @select_raise [changedHunk] [changedMethod] changedFunction riskyFunction changes_ids rfl rfl
    hrisk (kindWeight_self .function) (Nat.le_refl _) 2 hselected

end TargetSel

end Jitgen
