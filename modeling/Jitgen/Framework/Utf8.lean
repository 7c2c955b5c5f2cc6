import Jitgen.Framework.Text

/-!
# Lossy decoding of UTF-8

A decoder that goes byte by byte. Each longest run of bytes that begins a character without
completing it becomes one replacement character.
-/

namespace Jitgen.Utf8

open Text

/-- A character that was begun: its bits so far, the number of bytes that complete it, and the least
and greatest byte that may come next. -/
structure Pending where
  bits : Nat
  more : Nat
  low : Nat
  high : Nat
  deriving DecidableEq

def replacement : Char := Char.ofNat 0xFFFD

/-- The first byte of a character: what it decodes to, and what it begins. -/
def start (b : UInt8) : Text × Option Pending :=
  let n := b.toNat
  if n < 0x80 then ([Char.ofNat n], none)
  else if 0xC2 ≤ n ∧ n ≤ 0xDF then ([], some ⟨n - 0xC0, 1, 0x80, 0xBF⟩)
  else if n = 0xE0 then ([], some ⟨0, 2, 0xA0, 0xBF⟩)
  else if n = 0xED then ([], some ⟨0xD, 2, 0x80, 0x9F⟩)
  else if 0xE1 ≤ n ∧ n ≤ 0xEF then ([], some ⟨n - 0xE0, 2, 0x80, 0xBF⟩)
  else if n = 0xF0 then ([], some ⟨0, 3, 0x90, 0xBF⟩)
  else if 0xF1 ≤ n ∧ n ≤ 0xF3 then ([], some ⟨n - 0xF0, 3, 0x80, 0xBF⟩)
  else if n = 0xF4 then ([], some ⟨4, 3, 0x80, 0x8F⟩)
  else ([replacement], none)

def step : Option Pending → UInt8 → Text × Option Pending
  | none, b => start b
  | some p, b =>
    if p.low ≤ b.toNat ∧ b.toNat ≤ p.high then
      let bits := 64 * p.bits + (b.toNat - 0x80)
      if p.more = 1 then ([Char.ofNat bits], none)
      else ([], some ⟨bits, p.more - 1, 0x80, 0xBF⟩)
    else
      let r := start b
      (replacement :: r.1, r.2)

def decode : Option Pending → Bytes → Text
  | none, [] => []
  | some _, [] => [replacement]
  | s, b :: bytes =>
    let r := step s b
    r.1 ++ decode r.2 bytes

/-- Decode UTF-8 with a replacement character for what is malformed. -/
def fromUtf8Lossy (bytes : Bytes) : Text := decode none bytes

example : fromUtf8Lossy [0x61, 0xC3, 0xA9, 0xF0, 0x9F, 0x62, 0xE0, 0x80, 0xC3] =
    ['a', 'é', replacement, 'b', replacement, replacement, replacement] := by decide +kernel

/-- What becomes of a begun character when an ASCII byte follows. -/
def closed : Option Pending → Text
  | none => []
  | some _ => [replacement]

/-- No ASCII byte continues the character that was begun. -/
def Proper (s : Option Pending) : Prop := ∀ p ∈ s, 0x80 ≤ p.low

theorem start_proper (b : UInt8) : Proper (start b).2 := by
  simp only [start]
  intro p hp
  split_ifs at hp <;> simp only [Option.mem_def, Option.some.injEq, reduceCtorEq] at hp <;>
    subst hp <;> simp

theorem step_proper (s : Option Pending) (b : UInt8) : Proper (step s b).2 := by
  unfold step
  split
  · exact start_proper b
  · split
    · dsimp only
      split
      · intro p hp
        cases hp
      · intro p hp
        simp only [Option.mem_def, Option.some.injEq] at hp
        simp [← hp]
    · exact start_proper b

theorem step_newline {s : Option Pending} (hs : Proper s) :
    step s 10 = (closed s ++ ['\n'], none) := by
  cases s with
  | none => decide
  | some p =>
    have hlow : 0x80 ≤ p.low := hs p rfl
    have hout : ¬ (p.low ≤ (10 : UInt8).toNat ∧ (10 : UInt8).toNat ≤ p.high) := by
      have h10 : (10 : UInt8).toNat = 10 := rfl
      omega
    show (if _ then _ else _) = _
    rw [if_neg hout]
    rfl

theorem decode_newline {s : Option Pending} (hs : Proper s) (x y : Bytes) :
    decode s (x ++ 10 :: y) = decode s x ++ '\n' :: fromUtf8Lossy y := by
  induction x generalizing s with
  | nil =>
    have hstep := step_newline hs
    cases s with
    | none => simp [decode, hstep, closed, fromUtf8Lossy]
    | some p => simp [decode, hstep, closed, fromUtf8Lossy]
  | cons b x ih =>
    have hrest := ih (step_proper s b)
    cases s with
    | none => simp [decode, hrest]
    | some p => simp [decode, hrest]

theorem fromUtf8Lossy_newline (x y : Bytes) :
    fromUtf8Lossy (x ++ 10 :: y) = fromUtf8Lossy x ++ '\n' :: fromUtf8Lossy y :=
  decode_newline (by simp [Proper]) x y

end Jitgen.Utf8
