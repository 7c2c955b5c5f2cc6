import Jitgen.Framework.Numerals
import Mathlib.Data.Nat.Log
import Mathlib.Order.Basic

/-!
# IEEE 754 binary64 values

A value is its 64-bit pattern. Comparisons go through a sign-magnitude key, so that order facts
become facts about integers; a comparison with a NaN is false.
-/

namespace Jitgen

structure Binary64 where
  bits : Nat
  bits_lt : bits < 2 ^ 64
  deriving DecidableEq

namespace Binary64

/-- The value with the given bit pattern, reduced to 64 bits. -/
def ofBits (n : Nat) : Binary64 := ⟨n % 2 ^ 64, Nat.mod_lt _ (by decide)⟩

def isNegative (a : Binary64) : Bool := 2 ^ 63 ≤ a.bits

/-- Exponent and fraction fields together: the magnitude's rank among all magnitudes. -/
def magnitude (a : Binary64) : Nat := a.bits % 2 ^ 63

def infinityMagnitude : Nat := 0x7FF0000000000000

def isNaN (a : Binary64) : Bool := infinityMagnitude < a.magnitude

def isFinite (a : Binary64) : Bool := a.magnitude < infinityMagnitude

/-- Rank of a value in the numeric order; both zeros have rank `0`. -/
def key (a : Binary64) : Int := if a.isNegative then -(a.magnitude : Int) else a.magnitude

def le (a b : Binary64) : Bool := !a.isNaN && !b.isNaN && decide (a.key ≤ b.key)

def lt (a b : Binary64) : Bool := !a.isNaN && !b.isNaN && decide (a.key < b.key)

/-- The smaller of two values; a NaN loses to the other argument. -/
def min (a b : Binary64) : Binary64 :=
  if a.isNaN then b else if b.isNaN then a else if b.key < a.key then b else a

/-- Restrict to `[lo, hi]`; a NaN stays a NaN. -/
def clamp (a lo hi : Binary64) : Binary64 :=
  let a := if lt a lo then lo else a
  if lt hi a then hi else a

def zero : Binary64 := ofBits 0

def one : Binary64 := ofBits 0x3FF0000000000000

/-- Nearest value to `1/2`. -/
def half : Binary64 := ofBits 0x3FE0000000000000

/-- Nearest value to `1/5`. -/
def oneFifth : Binary64 := ofBits 0x3FC999999999999A

/-- Nearest value to `2/5`. -/
def twoFifths : Binary64 := ofBits 0x3FD999999999999A

/-- Nearest value to `3/5`. -/
def threeFifths : Binary64 := ofBits 0x3FE3333333333333

/-- Nearest value to `4/5`. -/
def fourFifths : Binary64 := ofBits 0x3FE999999999999A

/-- Integer significand of a finite magnitude. -/
def significand (a : Binary64) : Nat :=
  if a.magnitude < 2 ^ 52 then a.magnitude else a.magnitude % 2 ^ 52 + 2 ^ 52

/-- Binary exponent of the significand's unit, offset by `1074`. -/
def unitExponent (a : Binary64) : Nat := a.magnitude / 2 ^ 52 - 1

/-- Halve `n` `k` times and round to nearest, ties to even. -/
def shiftRoundEven (n k : Nat) : Nat :=
  let q := n / 2 ^ k
  let r := n % 2 ^ k
  if 2 ^ k < 2 * r ∨ (2 * r = 2 ^ k ∧ q % 2 = 1) then q + 1 else q

/-- The magnitude nearest to `n * 2 ^ (e - 2148)`. -/
def roundMagnitude (n e : Nat) : Nat :=
  if n = 0 then 0
  else
    -- exponent offset by 1074 once more, so that natural subtraction stays exact
    let top := e + Nat.log2 n - 52
    let unit := Max.max top 1074
    let m := if unit ≤ e then n * 2 ^ (e - unit) else shiftRoundEven n (unit - e)
    Min.min ((unit - 1074) * 2 ^ 52 + m) infinityMagnitude

/-- Correctly rounded product, with the usual conventions for NaN and infinity. -/
def mul (a b : Binary64) : Binary64 :=
  let sign := if a.isNegative = b.isNegative then 0 else 2 ^ 63
  if a.isNaN || b.isNaN then ofBits (infinityMagnitude + 2 ^ 51)
  else if !a.isFinite || !b.isFinite then
    if a.magnitude = 0 ∨ b.magnitude = 0 then ofBits (infinityMagnitude + 2 ^ 51)
    else ofBits (sign + infinityMagnitude)
  else
    ofBits (sign + roundMagnitude (a.significand * b.significand)
      (a.unitExponent + b.unitExponent))

example : mul oneFifth half = ofBits 0x3FB999999999999A := by decide +kernel

/-- Correctly rounded quotient of two natural numbers, the divisor not zero: the quotient to far
more bits than a significand has, and one bit that says whether it is exact. -/
def ratio (n m : Nat) : Binary64 :=
  let scaled := n * 2 ^ 128
  let sticky := if scaled % m = 0 then 0 else 1
  ofBits (roundMagnitude (2 * (scaled / m) + sticky) (2148 - 129))

/-- Nearest value to `1/20`. -/
def oneTwentieth : Binary64 := ofBits 0x3FA999999999999A

example : ratio 1 20 = oneTwentieth ∧ ratio 3 3 = one := by decide +kernel

/-- Decimal text with two digits after the point, rounded to nearest with ties to even. -/
def toFixed2 (a : Binary64) : Text :=
  if a.isNaN then "NaN"
  else
    let sign : Text := if a.isNegative then "-" else ""
    if !a.isFinite then sign ++ "inf"
    else
      let hundredths :=
        if 1074 ≤ a.unitExponent then a.significand * 100 * 2 ^ (a.unitExponent - 1074)
        else shiftRoundEven (a.significand * 100) (1074 - a.unitExponent)
      sign ++ Text.ofNat (hundredths / 100) ++ "." ++ Text.ofNat (hundredths % 100 / 10) ++
        Text.ofNat (hundredths % 10)

example : toFixed2 oneFifth = ("0.20" : Text) := by decide +kernel

theorem of_mem_toFixed2 {a : Binary64} {x : Char} (hx : x ∈ a.toFixed2) :
    Text.isAsciiDigit x = true ∨ x ∈ ("NaN-inf." : Text) := by
  have hnan : ∀ x ∈ ("NaN" : Text), x ∈ ("NaN-inf." : Text) := Text.forall_mem_of_all (by decide)
  have hinf : ∀ x ∈ ("inf" : Text), x ∈ ("NaN-inf." : Text) := Text.forall_mem_of_all (by decide)
  have hpoint : ∀ x ∈ ("." : Text), x ∈ ("NaN-inf." : Text) := Text.forall_mem_of_all (by decide)
  have hsign : ∀ x ∈ (if a.isNegative then "-" else "" : Text), x ∈ ("NaN-inf." : Text) := by
    cases a.isNegative <;> exact Text.forall_mem_of_all (by decide)
  have hdigits : ∀ n, x ∈ Text.ofNat n → Text.isAsciiDigit x = true := fun _ hn =>
    Text.isAsciiDigit_of_mem_ofNat hn
  unfold toFixed2 at hx
  dsimp only at hx
  by_cases hn : a.isNaN = true
  · rw [if_pos hn] at hx
    exact .inr (hnan x hx)
  rw [if_neg hn] at hx
  by_cases hf : (!a.isFinite) = true
  · rw [if_pos hf] at hx
    exact .inr ((List.mem_append.mp hx).elim (hsign x) (hinf x))
  rw [if_neg hf] at hx
  simp only [List.mem_append] at hx
  rcases hx with (((hx | hx) | hx) | hx) | hx
  · exact .inr (hsign x hx)
  · exact .inl (hdigits _ hx)
  · exact .inr (hpoint x hx)
  · exact .inl (hdigits _ hx)
  · exact .inl (hdigits _ hx)

theorem printable_of_mem_toFixed2 {a : Binary64} {x : Char} (hx : x ∈ a.toFixed2) :
    0x20 ≤ x.toNat ∧ x.toNat < 0x7F := by
  have hother : ∀ x ∈ ("NaN-inf." : Text), 0x20 ≤ x.toNat ∧ x.toNat < 0x7F :=
    Text.forall_mem_of_all (by decide)
  cases of_mem_toFixed2 hx with
  | inl hdigit =>
    have hrange := Text.isAsciiDigit_iff.mp hdigit
    omega
  | inr hmem => exact hother x hmem

theorem le_iff {a b : Binary64} :
    le a b = true ↔ a.isNaN = false ∧ b.isNaN = false ∧ a.key ≤ b.key := by
  simp [le, and_assoc]

theorem lt_iff {a b : Binary64} :
    lt a b = true ↔ a.isNaN = false ∧ b.isNaN = false ∧ a.key < b.key := by
  simp [lt, and_assoc]

theorem le_trans {a b c : Binary64} (hab : le a b = true) (hbc : le b c = true) :
    le a c = true := by
  rw [le_iff] at *
  exact ⟨hab.1, hbc.2.1, hab.2.2.trans hbc.2.2⟩

theorem le_refl {a : Binary64} (h : a.isNaN = false) : le a a = true :=
  le_iff.mpr ⟨h, h, Int.le_refl _⟩

theorem min_isNaN {a b : Binary64} (ha : a.isNaN = false) : (min a b).isNaN = false := by
  unfold min
  split_ifs <;> simp_all

theorem min_le_left {a b : Binary64} (ha : a.isNaN = false) : le (min a b) a = true := by
  rw [le_iff]
  refine ⟨min_isNaN ha, ha, ?_⟩
  unfold min
  split_ifs <;> simp_all
  omega

theorem clamp_isNaN {a lo hi : Binary64} (ha : a.isNaN = false) (hlo : lo.isNaN = false)
    (hhi : hi.isNaN = false) : (clamp a lo hi).isNaN = false := by
  unfold clamp
  dsimp only
  split_ifs <;> assumption

theorem clamp_key {a lo hi : Binary64} (ha : a.isNaN = false) (hlo : lo.isNaN = false)
    (hhi : hi.isNaN = false) (hle : lo.key ≤ hi.key) :
    (clamp a lo hi).key = Min.min hi.key (Max.max lo.key a.key) := by
  unfold clamp
  dsimp only
  split_ifs with h₁ h₂ h₂ <;> simp only [lt_iff, ha, hlo, hhi, true_and] at h₁ h₂ <;> omega

theorem clamp_le_clamp {a b lo hi : Binary64} (hlo : lo.isNaN = false) (hhi : hi.isNaN = false)
    (hle : lo.key ≤ hi.key) (h : le a b = true) : le (clamp a lo hi) (clamp b lo hi) = true := by
  obtain ⟨ha, hb, hk⟩ := le_iff.mp h
  rw [le_iff]
  refine ⟨clamp_isNaN ha hlo hhi, clamp_isNaN hb hlo hhi, ?_⟩
  rw [clamp_key ha hlo hhi hle, clamp_key hb hlo hhi hle]
  omega

end Binary64

end Jitgen
