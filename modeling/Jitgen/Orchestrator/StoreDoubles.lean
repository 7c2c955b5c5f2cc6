import Jitgen.Orchestrator.Doubles
import Jitgen.Orchestrator.Run

/-!
# Doubles of serialization and digests

A value out of a short list is stored as its position; a digest writes the bytes in hexadecimal.
-/

namespace Jitgen

open Text

section

variable {α : Type} [DecidableEq α]

/-- Encode one of finitely many values as its position. -/
def encodeAmong (xs : List α) (x : α) : Except Text Bytes :=
  match xs.idxOf? x with
  | some n => .ok [UInt8.ofNat n]
  | none => .error "unknown value"

def decodeAmong (xs : List α) : Bytes → Except Text α
  | [b] =>
    match xs[b.toNat]? with
    | some x => .ok x
    | none => .error "unknown position"
  | _ => .error "not one byte"

theorem decodeAmong_encodeAmong {xs : List α} (hlen : xs.length ≤ 256) {x : α} {bytes : Bytes}
    (h : encodeAmong xs x = .ok bytes) : decodeAmong xs bytes = .ok x := by
  unfold encodeAmong at h
  cases hidx : xs.idxOf? x with
  | none => simp [hidx] at h
  | some n =>
    simp only [hidx, Except.ok.injEq] at h
    subst h
    obtain ⟨hn, hx, -⟩ := List.findIdx?_eq_some_iff_getElem.mp hidx
    have hmod : n % 256 = n := Nat.mod_eq_of_lt (by omega)
    have hget : xs[n]? = some x := by
      rw [List.getElem?_eq_getElem hn, eq_of_beq hx]
    simp only [decodeAmong, UInt8.toNat_ofNat', hmod, Nat.reducePow, hget]

theorem encodeAmong_injective {xs : List α} (hlen : xs.length ≤ 256) {x y : α} {bytes : Bytes}
    (hx : encodeAmong xs x = .ok bytes) (hy : encodeAmong xs y = .ok bytes) : x = y := by
  have h := decodeAmong_encodeAmong hlen hx
  rw [decodeAmong_encodeAmong hlen hy] at h
  exact (Except.ok.inj h).symm

theorem encodeAmong_length {xs : List α} {x : α} {bytes : Bytes}
    (h : encodeAmong xs x = .ok bytes) : bytes.length = 1 := by
  unfold encodeAmong at h
  cases hidx : xs.idxOf? x with
  | none => simp [hidx] at h
  | some n =>
    simp only [hidx, Except.ok.injEq] at h
    rw [← h, List.length_singleton]

end

/-- A configuration that lets code run outside a sandbox. -/
def looseConfig : TrustedConfig := { TrustedConfig.default with unsafeLocalExecution := true }

def otherOutcome : TargetOutcome := { TargetOutcome.default with candidatesGenerated := 1 }

/-- The report of a run without targets. -/
def emptyReport (run : RunId) : RunReport :=
  assembleReport run "/w" "b" "h" .harden .harden [] [] []

/-- The id of the run the doubles are about. -/
def sampleRunId : RunId := "run-2f721f621f681f68"

abbrev sampleSerde : Serde where
  targetJson := encodeAmong [sampleTarget.target]
  trustedJson := encodeAmong [TrustedConfig.default, looseConfig]
  trustedPretty := encodeAmong [TrustedConfig.default, looseConfig]
  parseTrusted := decodeAmong [TrustedConfig.default, looseConfig]
  outcomeJson := encodeAmong [TargetOutcome.default, otherOutcome]
  parseOutcome := decodeAmong [TargetOutcome.default, otherOutcome]
  reportPretty := encodeAmong [emptyReport sampleRunId]
  parseReport := decodeAmong [emptyReport sampleRunId]

def hexDigit (n : Nat) : Char := Char.ofNat (if n < 10 then n + '0'.toNat else n - 10 + 'a'.toNat)

def hexValue (c : Char) : Nat := if c ≤ '9' then c.toNat - '0'.toNat else c.toNat - 'a'.toNat + 10

theorem hexValue_hexDigit : ∀ n < 16, hexValue (hexDigit n) = n := by decide

def hexText (bytes : Bytes) : Text :=
  bytes.flatMap fun b => [hexDigit (b.toNat / 16), hexDigit (b.toNat % 16)]

theorem hexText_injective {bs bs' : Bytes} (h : hexText bs = hexText bs') : bs = bs' := by
  induction bs generalizing bs' with
  | nil =>
    cases bs' with
    | nil => rfl
    | cons b' bs' => simp [hexText] at h
  | cons b bs ih =>
    cases bs' with
    | nil => simp [hexText] at h
    | cons b' bs' =>
      simp only [hexText, List.flatMap_cons, List.cons_append, List.nil_append,
        List.cons.injEq] at h
      obtain ⟨hhigh, hlow, hrest⟩ := h
      have hb := b.toNat_lt
      have hb' := b'.toNat_lt
      have hdiv := congrArg hexValue hhigh
      have hmod := congrArg hexValue hlow
      rw [hexValue_hexDigit _ (by omega), hexValue_hexDigit _ (by omega)] at hdiv hmod
      have heq : b = b' := UInt8.toNat_inj.mp (by omega)
      rw [heq, ih hrest]

/-- A digest that loses nothing. -/
abbrev hexDigest : Digest := ⟨hexText⟩

def sampleOptions : RunOptions := ⟨"/r", "base", "head", .default⟩

/-- A run without faults in which every target gets the same outcome. -/
def steadyChoice : Choice RunAns where
  fault := .none
  answer
    | .openRepo _ => .ok ⟨"/r", "b", "h", "/s"⟩
    | .ensureOutsideRepo _ _ => .ok ()
    | .openStore _ => .ok ()
    | .reopenRepo info => .ok (info.baseRef, info.headRef)
    | .analyze _ _ _ _ _ => .ok ⟨[], "/w", [], []⟩
    | .process _ _ _ => .ok otherOutcome
    | .assembled _ _ => ()

end Jitgen
