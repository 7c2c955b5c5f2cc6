import Jitgen.Framework.Text

/-!
# Decimal numerals

Numbers are written without sign or leading zeros and read back as they were written.
-/

namespace Jitgen

namespace Text

theorem isAsciiDigit_iff {c : Char} : isAsciiDigit c = true ↔ 48 ≤ c.toNat ∧ c.toNat ≤ 57 := by
  simp [isAsciiDigit, Char.le_def, UInt32.le_iff_toNat_le]

theorem isAsciiDigit_of_mem_ofNat {n : Nat} {c : Char} (h : c ∈ ofNat n) :
    isAsciiDigit c = true := by
  have hdigit : c.isDigit = true :=
    Nat.isDigit_of_mem_toDigits (by decide) (by decide) h
  simpa [Char.isDigit, isAsciiDigit, Char.le_def] using hdigit

theorem ofNat_ne_nil (n : Nat) : ofNat n ≠ [] := Nat.toDigits_ne_nil

theorem notMem_ofNat {n : Nat} {c : Char} (hc : isAsciiDigit c = false) : c ∉ ofNat n := by
  intro h
  rw [isAsciiDigit_of_mem_ofNat h] at hc
  cases hc

theorem range_of_mem_ofNat {n : Nat} {c : Char} (h : c ∈ ofNat n) :
    48 ≤ c.toNat ∧ c.toNat ≤ 57 :=
  isAsciiDigit_iff.mp (isAsciiDigit_of_mem_ofNat h)

theorem not_isWhitespace_of_isAsciiDigit {c : Char} (h : isAsciiDigit c = true) :
    isWhitespace c = false := by
  have hrange := isAsciiDigit_iff.mp h
  unfold isWhitespace
  simp
  omega

/-- The number that decimal digits stand for. -/
def digitsValue (s : Text) : Nat := s.foldl (fun n c => 10 * n + (c.toNat - '0'.toNat)) 0

theorem digitsValue_ofNat (n : Nat) : digitsValue (ofNat n) = n := by
  have := Nat.ofDigitChars_ten_toDigits (n := n)
  rw [Nat.ofDigitChars_eq_foldl] at this
  simpa [digitsValue, ofNat, Nat.mul_comm] using this

theorem parseUnsigned_ofNat {bound n : Nat} (hn : n < bound) :
    parseUnsigned bound (ofNat n) = some n := by
  have hhead : (ofNat n).head? ≠ some '+' := by
    intro h
    exact absurd (List.mem_of_head? h) (notMem_ofNat (by decide))
  have hvalue : (ofNat n).foldl (fun n c => 10 * n + (c.toNat - '0'.toNat)) 0 = n :=
    digitsValue_ofNat n
  unfold parseUnsigned
  dsimp only
  rw [if_neg hhead, hvalue, if_pos]
  exact ⟨ofNat_ne_nil n, List.all_eq_true.mpr fun c hc => isAsciiDigit_of_mem_ofNat hc, hn⟩

end Text

end Jitgen
