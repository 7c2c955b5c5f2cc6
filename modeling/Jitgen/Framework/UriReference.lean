import Jitgen.Framework.Text

/-!
# URI references

How a reference is taken apart into its components, and the bytes that its path stands for.
-/

namespace Jitgen

open Text

namespace Uri

/-- A character that ends a scheme or what could be one. -/
def isDelimiter (c : Char) : Bool := c == ':' || c == '/' || c == '?' || c == '#'

/-- Whether the reference begins with a scheme: what stands before the first delimiter, if that is
a colon. -/
def hasScheme (s : Text) : Bool :=
  let name := s.takeWhile (!isDelimiter ·)
  !name.isEmpty && (s.drop name.length).head? == some ':'

/-- Whether a reference without a scheme begins with an authority. -/
def hasAuthority (s : Text) : Bool := s.startsWith "//"

/-- What stands before the query and the fragment. -/
def pathPart (s : Text) : Text := s.takeWhile fun c => c != '?' && c != '#'

def hexValue (c : Char) : Option Nat :=
  if isAsciiDigit c then some (c.toNat - 48)
  else if 'a' ≤ c ∧ c ≤ 'f' then some (c.toNat - 87)
  else if 'A' ≤ c ∧ c ≤ 'F' then some (c.toNat - 55)
  else none

/-- The byte of a percent-encoded triplet at the start of a text. -/
def triplet : Text → Option UInt8
  | c :: a :: b :: _ =>
    if c = '%' then
      match hexValue a, hexValue b with
      | some hi, some lo => some (UInt8.ofNat (16 * hi + lo))
      | _, _ => none
    else none
  | _ => none

/-- The bytes of a text with its triplets decoded, behind some characters that were read. -/
def decodeFrom : Nat → Text → Bytes
  | _, [] => []
  | skip + 1, _ :: cs => decodeFrom skip cs
  | 0, c :: cs =>
    match triplet (c :: cs) with
    | some byte => byte :: decodeFrom 2 cs
    | none => toUtf8 [c] ++ decodeFrom 0 cs

def percentDecode (s : Text) : Bytes := decodeFrom 0 s

def hasTriplet : Text → Bool
  | [] => false
  | c :: cs => (triplet (c :: cs)).isSome || hasTriplet cs

/-- The path of a relative reference; with a scheme or an authority it is none. -/
def relativePath (s : Text) : Option Bytes :=
  if hasScheme s || hasAuthority s then none else some (percentDecode (pathPart s))

example : relativePath "a%20b/c?d#e" = some (toUtf8 "a b/c") := by decide +kernel

example : relativePath "c:d" = none := by decide +kernel

theorem utf8Size_of_hexValue {c : Char} {n : Nat} (h : hexValue c = some n) : c.utf8Size = 1 := by
  have hbound : c.toNat < 128 := by
    have hle : ∀ d : Char, c ≤ d → c.toNat ≤ d.toNat := fun d hd => hd
    unfold hexValue at h
    split_ifs at h with h₁ h₂ h₃
    · unfold isAsciiDigit at h₁
      simp only [Bool.and_eq_true, decide_eq_true_eq] at h₁
      have := hle '9' h₁.2
      have h9 : ('9' : Char).toNat = 57 := rfl
      omega
    · have := hle 'f' h₂.2
      have hf : ('f' : Char).toNat = 102 := rfl
      omega
    · have := hle 'F' h₃.2
      have hF : ('F' : Char).toNat = 70 := rfl
      omega
  apply Char.utf8Size_eq_one_iff.mpr
  rw [UInt32.le_iff_toNat_le]
  show c.toNat ≤ 127
  omega

theorem of_triplet {s : Text} {byte : UInt8} (h : triplet s = some byte) :
    3 ≤ utf8Len s ∧ utf8Len (s.drop 3) + 3 = utf8Len s := by
  match s, h with
  | c :: a :: b :: rest, h =>
    rw [triplet] at h
    split_ifs at h with hc
    subst hc
    have hpercent : ('%' : Char).utf8Size = 1 := rfl
    split at h
    · rename_i hi lo ha hb
      simp only [utf8Len_cons, utf8Size_of_hexValue ha, utf8Size_of_hexValue hb, hpercent,
        List.drop_succ_cons, List.drop_zero]
      omega
    · cases h

/-- Decoding never lengthens a text. -/
theorem length_decodeFrom_le (skip : Nat) (s : Text) :
    (decodeFrom skip s).length ≤ utf8Len (s.drop skip) := by
  induction s generalizing skip with
  | nil => simp [decodeFrom]
  | cons c cs ih =>
    cases skip with
    | succ skip =>
      rw [decodeFrom, List.drop_succ_cons]
      exact ih skip
    | zero =>
      rw [decodeFrom, List.drop_zero]
      cases htriplet : triplet (c :: cs) with
      | some byte =>
        have hlen := of_triplet htriplet
        have hrest := ih 2
        simp only [List.drop_succ_cons] at hlen
        simp only [List.length_cons]
        omega
      | none =>
        have hrest := ih 0
        simp only [List.length_append, length_toUtf8, List.drop_zero] at hrest ⊢
        simp only [utf8Len_cons, utf8Len_nil]
        omega

theorem percentDecode_of_plain {s : Text} (h : hasTriplet s = false) :
    percentDecode s = toUtf8 s := by
  unfold percentDecode
  induction s with
  | nil => rfl
  | cons c cs ih =>
    rw [hasTriplet, Bool.or_eq_false_iff, Option.isSome_eq_false_iff,
      Option.isNone_iff_eq_none] at h
    rw [decodeFrom, h.1, ih h.2]
    simp [toUtf8]

theorem length_percentDecode_lt {s : Text} (h : hasTriplet s = true) :
    (percentDecode s).length < utf8Len s := by
  unfold percentDecode
  induction s with
  | nil => cases h
  | cons c cs ih =>
    rw [decodeFrom]
    cases htriplet : triplet (c :: cs) with
    | some byte =>
      have hlen := of_triplet htriplet
      have hrest := length_decodeFrom_le 2 cs
      simp only [List.drop_succ_cons] at hlen
      simp only [List.length_cons]
      omega
    | none =>
      rw [hasTriplet, htriplet, Option.isSome_none, Bool.false_or] at h
      have hrest := ih h
      simp only [List.length_append, length_toUtf8, utf8Len_cons, utf8Len_nil]
      omega

theorem percentDecode_eq_iff (s : Text) : percentDecode s = toUtf8 s ↔ hasTriplet s = false := by
  constructor
  · intro h
    rw [← Bool.not_eq_true]
    intro hhas
    have hlt := length_percentDecode_lt hhas
    rw [h, length_toUtf8] at hlt
    omega
  · exact percentDecode_of_plain

end Uri

end Jitgen
