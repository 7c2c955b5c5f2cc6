import Jitgen.Framework.Binary64

/-!
# Rounded arithmetic is monotone

Sums and products are exact integers in a fixed unit, rounded once. Rounding is monotone, also across
the exponents and into the subnormal range, so sums and products are, too.
-/

namespace Jitgen

namespace Binary64

/-- The magnitude nearest to a number of units of `2 ^ -2148`. -/
def roundUnits (v : Nat) : Nat :=
  let unit := Max.max (Nat.log2 v - 52) 1074
  Min.min ((unit - 1074) * 2 ^ 52 + shiftRoundEven v unit) infinityMagnitude

theorem shiftRoundEven_zero (k : Nat) : shiftRoundEven 0 k = 0 := by
  have hpos : 0 < 2 ^ k := Nat.two_pow_pos k
  unfold shiftRoundEven
  dsimp only
  rw [Nat.zero_div, Nat.zero_mod, if_neg]
  omega

theorem roundUnits_zero : roundUnits 0 = 0 := by
  unfold roundUnits
  dsimp only
  rw [shiftRoundEven_zero]
  rfl

theorem shiftRoundEven_mono {m n : Nat} (k : Nat) (h : m ≤ n) :
    shiftRoundEven m k ≤ shiftRoundEven n k := by
  have hpos : 0 < 2 ^ k := Nat.two_pow_pos k
  have hq : m / 2 ^ k ≤ n / 2 ^ k := Nat.div_le_div_right h
  have hm := Nat.div_add_mod m (2 ^ k)
  have hn := Nat.div_add_mod n (2 ^ k)
  unfold shiftRoundEven
  dsimp only
  rcases Nat.lt_or_ge (m / 2 ^ k) (n / 2 ^ k) with hlt | hge
  · split <;> split <;> omega
  · have heq : m / 2 ^ k = n / 2 ^ k := Nat.le_antisymm hq hge
    rw [heq] at hm ⊢
    split <;> split <;> omega

theorem shiftRoundEven_le {m k b : Nat} (h : m < b * 2 ^ k) : shiftRoundEven m k ≤ b := by
  have hq : m / 2 ^ k < b := (Nat.div_lt_iff_lt_mul (Nat.two_pow_pos k)).mpr h
  unfold shiftRoundEven
  dsimp only
  split <;> omega

theorem le_shiftRoundEven {m k b : Nat} (h : b * 2 ^ k ≤ m) : b ≤ shiftRoundEven m k := by
  have hq : b ≤ m / 2 ^ k := (Nat.le_div_iff_mul_le (Nat.two_pow_pos k)).mpr h
  unfold shiftRoundEven
  dsimp only
  split <;> omega

/-- Rounding a shifted number is exact, or rounds by the rest of the shift. -/
theorem shiftRoundEven_mul (n e k : Nat) :
    shiftRoundEven (n * 2 ^ e) k =
      if k ≤ e then n * 2 ^ (e - k) else shiftRoundEven n (k - e) := by
  split
  · rename_i h
    have hsplit : n * 2 ^ e = n * 2 ^ (e - k) * 2 ^ k := by
      rw [Nat.mul_assoc, ← Nat.pow_add, Nat.sub_add_cancel h]
    have hpos : 0 < 2 ^ k := Nat.two_pow_pos k
    unfold shiftRoundEven
    dsimp only
    rw [hsplit, Nat.mul_div_cancel _ hpos, Nat.mul_mod_left, if_neg]
    omega
  · rename_i h
    have hk : 2 ^ k = 2 ^ (k - e) * 2 ^ e := by
      rw [← Nat.pow_add]
      congr 1
      omega
    have hpos : 0 < 2 ^ e := Nat.two_pow_pos e
    have hdiv : n * 2 ^ e / 2 ^ k = n / 2 ^ (k - e) := by
      rw [hk, Nat.mul_div_mul_right _ _ hpos]
    have hmod : n * 2 ^ e % 2 ^ k = n % 2 ^ (k - e) * 2 ^ e := by
      rw [hk, Nat.mul_mod_mul_right]
    have hlt : 2 ^ k < 2 * (n * 2 ^ e % 2 ^ k) ↔ 2 ^ (k - e) < 2 * (n % 2 ^ (k - e)) := by
      rw [hmod, hk, ← Nat.mul_assoc]
      exact Nat.mul_lt_mul_right hpos
    have heq : 2 * (n * 2 ^ e % 2 ^ k) = 2 ^ k ↔ 2 * (n % 2 ^ (k - e)) = 2 ^ (k - e) := by
      rw [hmod, hk, ← Nat.mul_assoc]
      exact Nat.mul_right_cancel_iff hpos
    unfold shiftRoundEven
    dsimp only
    rw [hdiv]
    simp only [hlt, heq]

theorem log2_mul_two_pow {n : Nat} (hn : n ≠ 0) (e : Nat) :
    Nat.log2 (n * 2 ^ e) = Nat.log2 n + e := by
  have hne : n * 2 ^ e ≠ 0 := Nat.mul_ne_zero hn (Nat.two_pow_pos e).ne'
  apply (Nat.log2_eq_iff hne).mpr
  obtain ⟨hlow, hhigh⟩ := (Nat.log2_eq_iff hn).mp rfl
  constructor
  · rw [Nat.pow_add]
    exact Nat.mul_le_mul_right _ hlow
  · rw [show n.log2 + e + 1 = n.log2 + 1 + e by omega, Nat.pow_add]
    exact Nat.mul_lt_mul_of_pos_right hhigh (Nat.two_pow_pos e)

theorem roundMagnitude_eq (n e : Nat) : roundMagnitude n e = roundUnits (n * 2 ^ e) := by
  by_cases hn : n = 0
  · subst hn
    rw [Nat.zero_mul, roundUnits_zero]
    rfl
  · unfold roundMagnitude roundUnits
    dsimp only
    rw [if_neg hn, log2_mul_two_pow hn, Nat.add_comm n.log2 e, shiftRoundEven_mul]

theorem roundUnits_le_infinity (v : Nat) : roundUnits v ≤ infinityMagnitude := Nat.min_le_right _ _

/-- Rounding is monotone. -/
theorem roundUnits_mono {v w : Nat} (h : v ≤ w) : roundUnits v ≤ roundUnits w := by
  by_cases hv : v = 0
  · subst hv
    rw [roundUnits_zero]
    exact Nat.zero_le _
  have hw : w ≠ 0 := by omega
  obtain ⟨hvlow, hvhigh⟩ := (Nat.log2_eq_iff hv).mp rfl
  obtain ⟨hwlow, hwhigh⟩ := (Nat.log2_eq_iff hw).mp rfl
  have hlog : v.log2 ≤ w.log2 := by
    by_contra hlt
    have hpow : 2 ^ (w.log2 + 1) ≤ 2 ^ v.log2 := Nat.pow_le_pow_right (by decide) (by omega)
    omega
  unfold roundUnits
  dsimp only
  generalize hu : Max.max (v.log2 - 52) 1074 = u
  generalize hu' : Max.max (w.log2 - 52) 1074 = u'
  have hmono : (u - 1074) * 2 ^ 52 + shiftRoundEven v u ≤
      (u' - 1074) * 2 ^ 52 + shiftRoundEven w u' := by
    rcases Nat.lt_or_ge u u' with hlt | hge
    · have hsmall : v < 2 ^ 53 * 2 ^ u := by
        apply hvhigh.trans_le
        rw [← Nat.pow_add]
        exact Nat.pow_le_pow_right (by decide) (by omega)
      have hlarge : 2 ^ 52 * 2 ^ u' ≤ w := by
        rw [← Nat.pow_add]
        apply Nat.le_trans _ hwlow
        exact Nat.pow_le_pow_right (by decide) (by omega)
      have hv53 := shiftRoundEven_le hsmall
      have hw52 := le_shiftRoundEven hlarge
      omega
    · have heq : u = u' := by omega
      rw [heq]
      exact Nat.add_le_add_left (shiftRoundEven_mono u' h) _
  exact Nat.le_min.mpr ⟨(Nat.min_le_left _ _).trans hmono, Nat.min_le_right _ _⟩

/-- The exact value of a finite magnitude, in units of `2 ^ -1074`. -/
def magnitudeUnits (m : Nat) : Nat :=
  if m < 2 ^ 52 then m else (m % 2 ^ 52 + 2 ^ 52) * 2 ^ (m / 2 ^ 52 - 1)

/-- The exact value of a finite number, in units of `2 ^ -1074`. -/
def units (a : Binary64) : Int :=
  if a.isNegative then -(magnitudeUnits a.magnitude : Int) else magnitudeUnits a.magnitude

/-- The signed magnitude nearest to `z * 2 ^ (e - 2148)`. -/
def roundSigned (e : Nat) (z : Int) : Int :=
  if z < 0 then -(roundMagnitude z.natAbs e : Int) else roundMagnitude z.natAbs e

theorem significand_mul (a : Binary64) :
    a.significand * 2 ^ a.unitExponent = magnitudeUnits a.magnitude := by
  unfold significand unitExponent magnitudeUnits
  split
  · rename_i h
    rw [Nat.div_eq_of_lt h]
    simp
  · rfl

theorem magnitudeUnits_mono {m n : Nat} (h : m ≤ n) : magnitudeUnits m ≤ magnitudeUnits n := by
  have hq : m / 2 ^ 52 ≤ n / 2 ^ 52 := Nat.div_le_div_right h
  have hm := Nat.div_add_mod m (2 ^ 52)
  have hn := Nat.div_add_mod n (2 ^ 52)
  have hmlt : m % 2 ^ 52 < 2 ^ 52 := Nat.mod_lt _ (by decide)
  have hstep : ∀ k, 1 ≤ k → 2 ^ 52 ≤ 2 ^ 52 * 2 ^ (k - 1) := fun k _ =>
    Nat.le_mul_of_pos_right _ (Nat.two_pow_pos _)
  unfold magnitudeUnits
  split
  · rename_i hsmall
    split
    · exact h
    · rename_i hlarge
      have hone : 1 ≤ n / 2 ^ 52 := by omega
      have hbig := hstep _ hone
      have hmore : 2 ^ 52 * 2 ^ (n / 2 ^ 52 - 1) ≤ (n % 2 ^ 52 + 2 ^ 52) * 2 ^ (n / 2 ^ 52 - 1) :=
        Nat.mul_le_mul_right _ (by omega)
      omega
  · rename_i hlarge
    have hone : 1 ≤ m / 2 ^ 52 := by omega
    rw [if_neg (by omega : ¬ n < 2 ^ 52)]
    rcases Nat.lt_or_ge (m / 2 ^ 52) (n / 2 ^ 52) with hlt | hge
    · calc
        (m % 2 ^ 52 + 2 ^ 52) * 2 ^ (m / 2 ^ 52 - 1) ≤ (2 * 2 ^ 52) * 2 ^ (m / 2 ^ 52 - 1) :=
          Nat.mul_le_mul_right _ (by omega)
        _ = 2 ^ 52 * 2 ^ (m / 2 ^ 52) := by
          rw [Nat.mul_comm 2, Nat.mul_assoc, ← Nat.pow_add_one', Nat.sub_add_cancel hone]
        _ ≤ 2 ^ 52 * 2 ^ (n / 2 ^ 52 - 1) :=
          Nat.mul_le_mul_left _ (Nat.pow_le_pow_right (by decide) (by omega))
        _ ≤ (n % 2 ^ 52 + 2 ^ 52) * 2 ^ (n / 2 ^ 52 - 1) := Nat.mul_le_mul_right _ (by omega)
    · have heq : m / 2 ^ 52 = n / 2 ^ 52 := Nat.le_antisymm hq hge
      rw [heq]
      exact Nat.mul_le_mul_right _ (by omega)

theorem units_mono {a b : Binary64} (h : a.key ≤ b.key) : a.units ≤ b.units := by
  have hzero : magnitudeUnits 0 = 0 := rfl
  unfold key at h
  unfold units
  cases ha : a.isNegative <;> cases hb : b.isNegative <;>
    simp only [ha, hb, if_true, if_false, Bool.false_eq_true] at h ⊢
  · have hle := @magnitudeUnits_mono a.magnitude b.magnitude (by omega)
    omega
  · have hle := @magnitudeUnits_mono a.magnitude 0 (by omega)
    have hle' := @magnitudeUnits_mono b.magnitude 0 (by omega)
    omega
  · omega
  · have hle := @magnitudeUnits_mono b.magnitude a.magnitude (by omega)
    omega

theorem roundMagnitude_mono {m n : Nat} (e : Nat) (h : m ≤ n) :
    roundMagnitude m e ≤ roundMagnitude n e := by
  rw [roundMagnitude_eq, roundMagnitude_eq]
  exact roundUnits_mono (Nat.mul_le_mul_right _ h)

theorem roundSigned_mono (e : Nat) {y z : Int} (h : y ≤ z) : roundSigned e y ≤ roundSigned e z := by
  unfold roundSigned
  split <;> split
  · have hle := @roundMagnitude_mono z.natAbs y.natAbs e (by omega)
    omega
  · omega
  · omega
  · have hle := @roundMagnitude_mono y.natAbs z.natAbs e (by omega)
    omega

/-- The number of a sign and a magnitude. -/
def ofSigned (negative : Bool) (m : Nat) : Binary64 := ofBits ((if negative then 2 ^ 63 else 0) + m)

/-- Correctly rounded sum, with the usual conventions for NaN and infinity. -/
def add (a b : Binary64) : Binary64 :=
  if a.isNaN || b.isNaN then ofBits (infinityMagnitude + 2 ^ 51)
  else if a.isFinite && b.isFinite then
    let z := a.units + b.units
    ofSigned (z < 0 || (z = 0 && a.isNegative && b.isNegative)) (roundMagnitude z.natAbs 1074)
  else if !a.isFinite && !b.isFinite && a.isNegative != b.isNegative then
    ofBits (infinityMagnitude + 2 ^ 51)
  else if a.isFinite then b
  else a

example : add half oneFifth = ofBits 0x3FE6666666666666 := by decide +kernel

theorem key_ofSigned {negative : Bool} {m : Nat} (hm : m < 2 ^ 63) :
    (ofSigned negative m).key = if negative then -(m : Int) else m := by
  cases negative with
  | false =>
    have hbits : (0 + m) % 2 ^ 64 = m := by omega
    have hnot : ¬ 2 ^ 63 ≤ m := by omega
    have hmag : m % 2 ^ 63 = m := Nat.mod_eq_of_lt hm
    simp [ofSigned, key, isNegative, magnitude, ofBits]
    omega
  | true =>
    simp [ofSigned, key, isNegative, magnitude, ofBits]
    omega

theorem magnitude_ofSigned {negative : Bool} {m : Nat} (hm : m < 2 ^ 63) :
    (ofSigned negative m).magnitude = m := by
  cases negative <;> simp [ofSigned, magnitude, ofBits] <;> omega

theorem roundMagnitude_le_infinity (n e : Nat) : roundMagnitude n e ≤ infinityMagnitude := by
  rw [roundMagnitude_eq]
  exact roundUnits_le_infinity _

theorem roundMagnitude_lt (n e : Nat) : roundMagnitude n e < 2 ^ 63 :=
  Nat.lt_of_le_of_lt (roundMagnitude_le_infinity n e) (by decide)

theorem isNaN_rounded (negative : Bool) (n e : Nat) :
    (ofSigned negative (roundMagnitude n e)).isNaN = false := by
  unfold isNaN
  rw [magnitude_ofSigned (roundMagnitude_lt n e), decide_eq_false_iff_not]
  exact Nat.not_lt.mpr (roundMagnitude_le_infinity n e)

theorem isNaN_of_isFinite {a : Binary64} (h : a.isFinite = true) : a.isNaN = false := by
  simp only [isFinite, isNaN, decide_eq_true_eq, decide_eq_false_iff_not] at h ⊢
  omega

section

variable {a b a' b' : Binary64}

theorem add_finite (ha : a.isFinite = true) (hb : b.isFinite = true) :
    (add a b).isNaN = false ∧ (add a b).key = roundSigned 1074 (a.units + b.units) := by
  have hadd : add a b = ofSigned
      (a.units + b.units < 0 || (a.units + b.units = 0 && a.isNegative && b.isNegative))
      (roundMagnitude (a.units + b.units).natAbs 1074) := by
    simp only [add, isNaN_of_isFinite ha, isNaN_of_isFinite hb, ha, hb, Bool.or_self,
      Bool.and_self, Bool.false_eq_true, if_false, if_true]
  rw [hadd]
  refine ⟨isNaN_rounded _ _ _, ?_⟩
  rw [key_ofSigned (roundMagnitude_lt _ _)]
  unfold roundSigned
  by_cases hneg : a.units + b.units < 0
  · simp [hneg]
  · by_cases hzero : a.units + b.units = 0
    · have hround : roundMagnitude (a.units + b.units).natAbs 1074 = 0 := by
        rw [hzero]
        rfl
      rw [hround]
      simp
    · simp [hneg, hzero]

theorem mul_finite (ha : a.isFinite = true) (hb : b.isFinite = true) :
    (mul a b).isNaN = false ∧ (mul a b).key = roundSigned 0 (a.units * b.units) := by
  have hproduct : roundMagnitude (a.significand * b.significand)
      (a.unitExponent + b.unitExponent) =
      roundMagnitude (magnitudeUnits a.magnitude * magnitudeUnits b.magnitude) 0 := by
    rw [roundMagnitude_eq, roundMagnitude_eq, ← significand_mul, ← significand_mul, Nat.pow_add,
      Nat.pow_zero, Nat.mul_one, Nat.mul_mul_mul_comm]
  have hmul : mul a b = ofSigned (a.isNegative != b.isNegative)
      (roundMagnitude (magnitudeUnits a.magnitude * magnitudeUnits b.magnitude) 0) := by
    rw [← hproduct]
    simp only [mul, isNaN_of_isFinite ha, isNaN_of_isFinite hb, ha, hb, Bool.or_self,
      Bool.not_true, Bool.false_eq_true, if_false, ofSigned]
    cases a.isNegative <;> cases b.isNegative <;> rfl
  rw [hmul]
  refine ⟨isNaN_rounded _ _ _, ?_⟩
  rw [key_ofSigned (roundMagnitude_lt _ _)]
  generalize hm : magnitudeUnits a.magnitude = m
  generalize hn : magnitudeUnits b.magnitude = n
  have hzero : m * n = 0 → roundMagnitude (m * n) 0 = 0 := by
    intro h
    rw [h]
    rfl
  have hcast : ((m : Int) * n).natAbs = m * n := by
    rw [← Int.natCast_mul]
    rfl
  have hnonneg : ¬ (m : Int) * n < 0 := by
    have := Int.natCast_nonneg (m * n)
    rw [Int.natCast_mul] at this
    omega
  unfold roundSigned units
  rw [hm, hn]
  cases a.isNegative <;> cases b.isNegative <;>
    simp only [bne_self_eq_false, Bool.false_eq_true, if_false, if_true, Int.neg_mul, Int.mul_neg,
      Int.neg_neg, Int.natAbs_neg, hcast, hnonneg, Bool.false_bne, Bool.true_bne, Bool.not_false]
  all_goals
    by_cases hmn : m * n = 0
    · rw [hzero hmn]
      simp
    · rw [if_pos]
      have hpos : 0 < m * n := Nat.pos_of_ne_zero hmn
      have hpos' : (0 : Int) < ((m * n : Nat) : Int) := by omega
      rw [Int.natCast_mul] at hpos'
      omega

theorem natAbs_key (a : Binary64) : a.key.natAbs = a.magnitude := by
  unfold key
  split <;> omega

theorem isFinite_of_le {lo hi : Binary64} (hlo : le lo a = true) (hhi : le a hi = true)
    (hlof : lo.isFinite = true) (hhif : hi.isFinite = true) : a.isFinite = true := by
  obtain ⟨-, -, hlow⟩ := le_iff.mp hlo
  obtain ⟨-, -, hhigh⟩ := le_iff.mp hhi
  have hmag := natAbs_key a
  have hmaglo := natAbs_key lo
  have hmaghi := natAbs_key hi
  simp only [isFinite, decide_eq_true_eq] at hlof hhif ⊢
  omega

theorem add_le_add (ha : a.isFinite = true) (hb : b.isFinite = true) (ha' : a'.isFinite = true)
    (hb' : b'.isFinite = true) (hle : le a a' = true) (hle' : le b b' = true) :
    le (add a b) (add a' b') = true := by
  obtain ⟨hnan, hkey⟩ := add_finite ha hb
  obtain ⟨hnan', hkey'⟩ := add_finite ha' hb'
  rw [le_iff, hkey, hkey']
  refine ⟨hnan, hnan', roundSigned_mono _ ?_⟩
  exact Int.add_le_add (units_mono (le_iff.mp hle).2.2) (units_mono (le_iff.mp hle').2.2)

theorem mul_le_mul_left (ha : a.isFinite = true) (hb : b.isFinite = true)
    (hb' : b'.isFinite = true) (hpos : 0 ≤ a.units) (hle : le b b' = true) :
    le (mul a b) (mul a b') = true := by
  obtain ⟨hnan, hkey⟩ := mul_finite ha hb
  obtain ⟨hnan', hkey'⟩ := mul_finite ha hb'
  rw [le_iff, hkey, hkey']
  refine ⟨hnan, hnan', roundSigned_mono _ ?_⟩
  exact Int.mul_le_mul_of_nonneg_left (units_mono (le_iff.mp hle).2.2) hpos

theorem min_key (ha : a.isNaN = false) (hb : b.isNaN = false) :
    (min a b).key = Min.min a.key b.key := by
  unfold min
  simp only [ha, hb, Bool.false_eq_true, if_false]
  split <;> omega

theorem min_le_min (ha : a.isNaN = false) (hb : b.isNaN = false) (ha' : a'.isNaN = false)
    (hle : le a a' = true) : le (min a b) (min a' b) = true := by
  rw [le_iff, min_key ha hb, min_key ha' hb]
  have hkey := (le_iff.mp hle).2.2
  exact ⟨min_isNaN ha, min_isNaN ha', by omega⟩

/-- A quotient by a divisor within the precision of the quotient grows with the dividend. -/
theorem ratio_mono {m n d : Nat} (hd : 0 < d) (hbound : d ≤ 2 ^ 128) (h : m ≤ n) :
    le (ratio m d) (ratio n d) = true := by
  have hratio : ∀ k, ∃ v, v = 2 * (k * 2 ^ 128 / d) + (if k * 2 ^ 128 % d = 0 then 0 else 1) ∧
      (ratio k d).isNaN = false ∧ (ratio k d).key = roundMagnitude v (2148 - 129) := by
    intro k
    refine ⟨_, rfl, ?_⟩
    have hsigned : ratio k d = ofSigned false (roundMagnitude
        (2 * (k * 2 ^ 128 / d) + (if k * 2 ^ 128 % d = 0 then 0 else 1)) (2148 - 129)) := by
      unfold ratio ofSigned
      dsimp only
      rw [if_neg Bool.false_ne_true, Nat.zero_add]
    rw [hsigned]
    exact ⟨isNaN_rounded _ _ _, key_ofSigned (roundMagnitude_lt _ _)⟩
  obtain ⟨v, hv, hnan, hkey⟩ := hratio m
  obtain ⟨w, hw, hnan', hkey'⟩ := hratio n
  rw [le_iff, hkey, hkey']
  refine ⟨hnan, hnan', ?_⟩
  have hvw : v ≤ w := by
    rcases Nat.lt_or_ge m n with hlt | hge
    · have hstep : m * 2 ^ 128 + d ≤ n * 2 ^ 128 := by
        have hone : (m + 1) * 2 ^ 128 ≤ n * 2 ^ 128 := Nat.mul_le_mul_right _ hlt
        rw [Nat.add_mul, Nat.one_mul] at hone
        omega
      have hq : m * 2 ^ 128 / d + 1 ≤ n * 2 ^ 128 / d := by
        rw [← Nat.add_div_right _ hd]
        exact Nat.div_le_div_right hstep
      rw [hv, hw]
      split <;> split <;> omega
    · have heq : m = n := Nat.le_antisymm h hge
      rw [hv, hw, heq]
  have hmono := roundMagnitude_mono (2148 - 129) hvw
  omega

end

end Binary64

end Jitgen
