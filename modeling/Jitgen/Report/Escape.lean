import Jitgen.Framework.Text

/-!
# Control stripping and length caps

Escape sequences are consumed by a small state machine: `ESC [` and the one-character introducer
through a final byte, `ESC ]` through `BEL` or a string terminator, any other `ESC x` as two
characters.
-/

namespace Jitgen

open Text

def truncationMarker : Text := "…[truncated]"

def capName : Nat := 512

def capText : Nat := 8 * 1024

def capSource : Nat := 64 * 1024

def esc : Char := Char.ofNat 0x1B

def csi : Char := Char.ofNat 0x9B

def bel : Char := Char.ofNat 0x07

/-- Controls, separators and format characters that are dropped outside escape sequences. -/
def isStrippable (c : Char) : Bool :=
  let n := c.toNat
  n ≤ 0x8 || n == 0xB || n == 0xC || n == 0xD || (0xE ≤ n && n ≤ 0x1F) || n == 0x7F ||
    (0x80 ≤ n && n ≤ 0x9F) || n == 0x2028 || n == 0x2029 || (0x200B ≤ n && n ≤ 0x200F) ||
    (0x202A ≤ n && n ≤ 0x202E) || (0x2066 ≤ n && n ≤ 0x2069) || n == 0xFEFF

inductive StripState where
  | text
  | escape
  | csiBody
  | oscBody
  | oscEnd
  deriving DecidableEq

def stripText (c : Char) : Option Char × StripState :=
  if c = esc then (none, .escape)
  else if c = csi then (none, .csiBody)
  else if c = '\n' ∨ c = '\t' then (some c, .text)
  else if isStrippable c then (none, .text)
  else (some c, .text)

/-- The character kept, if any, and the next state. -/
def stripStep : StripState → Char → Option Char × StripState
  | .text, c => stripText c
  | .escape, c => (none, if c = '[' then .csiBody else if c = ']' then .oscBody else .text)
  | .csiBody, c => (none, if 0x40 ≤ c.toNat ∧ c.toNat ≤ 0x7E then .text else .csiBody)
  | .oscBody, c => (none, if c = bel then .text else if c = esc then .oscEnd else .oscBody)
  | .oscEnd, c => if c = '\\' then (none, .text) else stripText c

def stripFrom : StripState → Text → Text
  | _, [] => []
  | s, c :: cs => (stripStep s c).1.toList ++ stripFrom (stripStep s c).2 cs

/-- Remove escape sequences, controls except `\n` and `\t`, and format characters. -/
def stripControls (input : Text) : Text := stripFrom .text input

example : stripControls [esc, '[', '3', '1', 'm', 'a', '\r', '\n'] = ['a', '\n'] := by decide

/-- What follows a CSI body, which ends with its final byte. -/
def consumeCsiBody : Text → Text
  | [] => []
  | c :: cs => if 0x40 ≤ c.toNat ∧ c.toNat ≤ 0x7E then cs else consumeCsiBody cs

/-- What follows an OSC body. An `ESC` ends it, and the backslash behind it goes with it. -/
def consumeOscBody : Text → Text
  | [] => []
  | c :: cs =>
    if c = bel then cs
    else if c = esc then (if cs.head? = some '\\' then cs.tail else cs)
    else consumeOscBody cs

/-- What follows an escape sequence whose `ESC` was read. -/
def consumeEscape : Text → Text
  | [] => []
  | c :: cs => if c = '[' then consumeCsiBody cs else if c = ']' then consumeOscBody cs else cs

private theorem stripFrom_csiBody (s : Text) :
    stripFrom .csiBody s = stripControls (consumeCsiBody s) := by
  induction s with
  | nil => rfl
  | cons c cs ih =>
    rw [stripFrom, consumeCsiBody]
    by_cases hfinal : 0x40 ≤ c.toNat ∧ c.toNat ≤ 0x7E
    · simp [stripStep, hfinal, stripControls]
    · simp only [stripStep, if_neg hfinal]
      exact ih

private theorem stripFrom_oscEnd (s : Text) :
    stripFrom .oscEnd s = stripControls (if s.head? = some '\\' then s.tail else s) := by
  cases s with
  | nil => rfl
  | cons c cs =>
    by_cases hc : c = '\\'
    · simp [stripFrom, stripStep, stripControls, hc]
    · simp [stripFrom, stripStep, stripControls, hc]

private theorem stripFrom_oscBody (s : Text) :
    stripFrom .oscBody s = stripControls (consumeOscBody s) := by
  induction s with
  | nil => rfl
  | cons c cs ih =>
    rw [stripFrom, consumeOscBody]
    by_cases hbel : c = bel
    · simp [stripStep, hbel, stripControls]
    · by_cases hesc : c = esc
      · simp only [stripStep, if_neg hbel, if_pos hesc]
        exact stripFrom_oscEnd cs
      · simp only [stripStep, if_neg hbel, if_neg hesc]
        exact ih

private theorem stripFrom_escape (s : Text) :
    stripFrom .escape s = stripControls (consumeEscape s) := by
  cases s with
  | nil => rfl
  | cons c cs =>
    rw [stripFrom, consumeEscape]
    by_cases hcsi : c = '['
    · simp only [stripStep, if_pos hcsi]
      exact stripFrom_csiBody cs
    · by_cases hosc : c = ']'
      · simp only [stripStep, if_neg hcsi, if_pos hosc]
        exact stripFrom_oscBody cs
      · simp [stripStep, hcsi, hosc, stripControls]

theorem stripControls_cons (c : Char) (cs : Text) :
    stripControls (c :: cs) =
      if c = esc then stripControls (consumeEscape cs)
      else if c = csi then stripControls (consumeCsiBody cs)
      else if c = '\n' ∨ c = '\t' then c :: stripControls cs
      else if isStrippable c then stripControls cs
      else c :: stripControls cs := by
  rw [stripControls, stripFrom, ← stripFrom_escape, ← stripFrom_csiBody, stripStep, stripText]
  split_ifs <;> rfl

/-- What a step keeps is the character it reads, and none that is dropped from plain text. -/
theorem of_mem_stripStep {st : StripState} {c d : Char} (h : d ∈ (stripStep st c).1) :
    d = c ∧ isStrippable c = false := by
  have htext : d ∈ (stripText c).1 → d = c ∧ isStrippable c = false := by
    intro h
    unfold stripText at h
    split_ifs at h with hesc hcsi hkept hstrip
    · simp at h
    · simp at h
    · rcases hkept with rfl | rfl
      · exact ⟨by simpa using h.symm, by decide⟩
      · exact ⟨by simpa using h.symm, by decide⟩
    · simp at h
    · exact ⟨by simpa using h.symm, by simpa using hstrip⟩
  cases st with
  | text => exact htext h
  | oscEnd =>
    simp only [stripStep] at h
    split_ifs at h
    · simp at h
    · exact htext h
  | _ => simp [stripStep] at h

theorem of_mem_stripFrom {st : StripState} {s : Text} {c : Char} (h : c ∈ stripFrom st s) :
    c ∈ s ∧ isStrippable c = false := by
  induction s generalizing st with
  | nil => cases h
  | cons d s ih =>
    rw [stripFrom, List.mem_append] at h
    rcases h with h | h
    · obtain ⟨rfl, hkept⟩ := of_mem_stripStep (Option.mem_toList.mp h)
      exact ⟨List.mem_cons_self, hkept⟩
    · exact (ih h).imp_left (List.mem_cons_of_mem d)

theorem stripControls_eq_self_iff (s : Text) :
    stripControls s = s ↔ ∀ c ∈ s, isStrippable c = false := by
  constructor
  · intro h c hc
    rw [← h] at hc
    exact (of_mem_stripFrom hc).2
  · intro h
    induction s with
    | nil => rfl
    | cons c s ih =>
      have hc := h c List.mem_cons_self
      have hesc : c ≠ esc := fun heq => absurd (heq ▸ hc) (by decide)
      have hcsi : c ≠ csi := fun heq => absurd (heq ▸ hc) (by decide)
      have hstep : stripStep .text c = (some c, .text) := by
        simp [stripStep, stripText, hesc, hcsi, hc]
      have hrest := ih fun d hd => h d (List.mem_cons_of_mem c hd)
      rw [stripControls, stripFrom, hstep]
      exact congrArg (c :: ·) hrest

/-- Truncate to `max` bytes on a character boundary, with the marker when something was cut. -/
def cap (s : Text) (max : Nat) : Text :=
  if utf8Len s ≤ max then s
  else if max < utf8Len truncationMarker then bytePrefix max truncationMarker
  else bytePrefix (max - utf8Len truncationMarker) s ++ truncationMarker

def sanitize (s : Text) (max : Nat) : Text := cap (stripControls s) max

/-- Sanitize, then flatten the newlines and tabs that were kept. -/
def sanitizeLine (s : Text) (max : Nat) : Text :=
  (sanitize s max).map fun c => if c = '\n' ∨ c = '\t' then ' ' else c

theorem utf8Len_cap_le (s : Text) (max : Nat) : utf8Len (cap s max) ≤ max := by
  unfold cap
  split_ifs with h₁ h₂
  · exact h₁
  · exact utf8Len_bytePrefix_le max _
  · have := utf8Len_bytePrefix_le (max - utf8Len truncationMarker) s
    rw [utf8Len_append]
    omega

theorem of_mem_sanitize {s : Text} {max : Nat} {c : Char} (h : c ∈ sanitize s max) :
    (c ∈ s ∨ c ∈ truncationMarker) ∧ isStrippable c = false := by
  have hmarker : ∀ c ∈ truncationMarker, isStrippable c = false :=
    forall_mem_of_all (by decide)
  have hkept : c ∈ stripControls s → (c ∈ s ∨ c ∈ truncationMarker) ∧ isStrippable c = false :=
    fun hc => (of_mem_stripFrom hc).imp_left .inl
  unfold sanitize cap at h
  split_ifs at h
  · exact hkept h
  · have hcut := bytePrefix_isPrefix max truncationMarker
    exact ⟨.inr (hcut.mem h), hmarker c (hcut.mem h)⟩
  · rcases List.mem_append.mp h with h | h
    · have hcut := bytePrefix_isPrefix (max - utf8Len truncationMarker) (stripControls s)
      exact hkept (hcut.mem h)
    · exact ⟨.inr h, hmarker c h⟩

def xmlAttrChar (c : Char) : Text :=
  if c = '\n' ∨ c = '\t' ∨ c = '\r' then " "
  else if c = '&' then "&amp;"
  else if c = '<' then "&lt;"
  else if c = '>' then "&gt;"
  else if c = '"' then "&quot;"
  else if c = '\'' then "&apos;"
  else [c]

/-- A value on one line, for an attribute. -/
def xmlAttr (s : Text) (max : Nat) : Text := (sanitize s max).flatMap xmlAttrChar

def xmlTextChar (c : Char) : Text :=
  if c = '&' then "&amp;" else if c = '<' then "&lt;" else if c = '>' then "&gt;" else [c]

def xmlText (s : Text) (max : Nat) : Text := (sanitize s max).flatMap xmlTextChar

end Jitgen
