import Jitgen.Framework.DebugEscapes
import Mathlib.Algebra.Group.Int.Defs
import Mathlib.Algebra.GroupWithZero.Nat
import Mathlib.Data.List.Infix
import Mathlib.Data.List.DropRight

/-!
# Text as a sequence of Unicode scalar values

Strings are modelled by their scalar values, so that byte lengths, line splitting and searching
are computable list functions and the proofs about them are inductions on lists.
-/

namespace Jitgen

/-- A string, given by its Unicode scalar values. -/
abbrev Text := List Char

instance : Coe String Text := ⟨String.toList⟩

instance : LawfulBEq Text := inferInstance

/-- Contents of a file. -/
abbrev Bytes := List UInt8

namespace Text

/-- Length of the UTF-8 encoding in bytes. -/
def utf8Len : Text → Nat
  | [] => 0
  | c :: cs => c.utf8Size + utf8Len cs

@[simp] theorem utf8Len_nil : utf8Len [] = 0 := rfl

@[simp] theorem utf8Len_cons (c : Char) (cs : Text) :
    utf8Len (c :: cs) = c.utf8Size + utf8Len cs := rfl

@[simp] theorem utf8Len_append (s t : Text) : utf8Len (s ++ t) = utf8Len s + utf8Len t := by
  induction s with
  | nil => simp
  | cons c cs ih => simp [ih, Nat.add_assoc]

theorem utf8Len_le_of_sublist {s t : Text} (h : s.Sublist t) : utf8Len s ≤ utf8Len t := by
  induction h with
  | slnil => rfl
  | cons c _ ih =>
    simp only [utf8Len_cons]
    omega
  | cons_cons c _ ih =>
    simp only [utf8Len_cons]
    omega

theorem eq_of_sublist_of_utf8Len_le {s t : Text} (h : s.Sublist t) (hlen : utf8Len t ≤ utf8Len s) :
    s = t := by
  induction h with
  | slnil => rfl
  | @cons s t c hsub _ =>
    have hle := utf8Len_le_of_sublist hsub
    have hc := c.utf8Size_pos
    simp only [utf8Len_cons] at hlen
    omega
  | cons_cons c _ ih =>
    simp only [utf8Len_cons] at hlen
    rw [ih (by omega)]

/-- The longest prefix that ends on a character boundary and has at most `max` bytes. -/
def bytePrefix : Nat → Text → Text
  | _, [] => []
  | max, c :: cs => if c.utf8Size ≤ max then c :: bytePrefix (max - c.utf8Size) cs else []

theorem bytePrefix_isPrefix (max : Nat) (s : Text) : bytePrefix max s <+: s := by
  induction s generalizing max with
  | nil => simp [bytePrefix]
  | cons c cs ih =>
    rw [bytePrefix]
    split
    · exact (List.prefix_cons_inj c).mpr (ih _)
    · exact List.nil_prefix

theorem utf8Len_bytePrefix_le (max : Nat) (s : Text) : utf8Len (bytePrefix max s) ≤ max := by
  induction s generalizing max with
  | nil => simp [bytePrefix]
  | cons c cs ih =>
    rw [bytePrefix]
    split
    · have := ih (max - c.utf8Size)
      simp only [utf8Len_cons]
      omega
    · simp

theorem bytePrefix_of_le {max : Nat} {s : Text} (h : utf8Len s ≤ max) : bytePrefix max s = s := by
  induction s generalizing max with
  | nil => rfl
  | cons c cs ih =>
    simp only [utf8Len_cons] at h
    rw [bytePrefix, if_pos (by omega), ih (by omega)]

theorem bytePrefix_longest {max : Nat} {s t : Text} (h : t <+: s) (hmax : utf8Len t ≤ max) :
    t <+: bytePrefix max s := by
  induction s generalizing max t with
  | nil => exact h
  | cons c cs ih =>
    cases t with
    | nil => exact List.nil_prefix
    | cons d ds =>
      have hd := List.cons_prefix_cons.mp h
      rw [hd.1, utf8Len_cons] at hmax
      rw [bytePrefix, if_pos (by omega)]
      apply List.cons_prefix_cons.mpr
      exact ⟨hd.1, ih hd.2 (by omega)⟩

/-- The Unicode `White_Space` property. -/
def isWhitespace (c : Char) : Bool :=
  let n := c.toNat
  (9 ≤ n && n ≤ 13) || n == 0x20 || n == 0x85 || n == 0xA0 || n == 0x1680 ||
    (0x2000 ≤ n && n ≤ 0x200A) || n == 0x2028 || n == 0x2029 || n == 0x202F || n == 0x205F ||
    n == 0x3000

/-- The Unicode general category `Cc`. -/
def isControl (c : Char) : Bool :=
  let n := c.toNat
  n ≤ 0x1F || (0x7F ≤ n && n ≤ 0x9F)

def isAsciiUpper (c : Char) : Bool := 'A' ≤ c && c ≤ 'Z'

def isAsciiLower (c : Char) : Bool := 'a' ≤ c && c ≤ 'z'

def isAsciiDigit (c : Char) : Bool := '0' ≤ c && c ≤ '9'

def isAsciiAlphanumeric (c : Char) : Bool := isAsciiUpper c || isAsciiLower c || isAsciiDigit c

def charToAsciiLower (c : Char) : Char := if isAsciiUpper c then Char.ofNat (c.toNat + 32) else c

def charToAsciiUpper (c : Char) : Char := if isAsciiLower c then Char.ofNat (c.toNat - 32) else c

/-- Lowercase the ASCII letters and keep every other character. -/
def toAsciiLower (s : Text) : Text := s.map charToAsciiLower

def trimStart (s : Text) : Text := s.dropWhile isWhitespace

def trimEnd (s : Text) : Text := s.rdropWhile isWhitespace

def trim (s : Text) : Text := trimEnd (trimStart s)

/-- Whether the text has no character other than white space. -/
def isBlank (s : Text) : Bool := s.all isWhitespace

theorem forall_mem_of_all {p : Char → Prop} [DecidablePred p] {s : Text}
    (h : s.all (fun c => p c) = true) : ∀ c ∈ s, p c := by
  simpa using h

def startsWith (s pre : Text) : Bool := pre.isPrefixOf s

def endsWith (s suf : Text) : Bool := suf.isSuffixOf s

/-- Whether `needle` occurs in `s` as a contiguous substring. -/
def hasSubstr (s needle : Text) : Bool := decide (needle <:+: s)

theorem hasSubstr_iff (s needle : Text) : hasSubstr s needle = true ↔ needle <:+: s := by
  simp [hasSubstr]

/-- What follows `pre`, when the text starts with it. -/
def stripPrefix (pre s : Text) : Option Text :=
  if pre.isPrefixOf s then some (s.drop pre.length) else none

theorem stripPrefix_eq_some {pre s rest : Text} (h : stripPrefix pre s = some rest) :
    s = pre ++ rest := by
  unfold stripPrefix at h
  split at h
  · rename_i hp
    obtain ⟨t, rfl⟩ := List.isPrefixOf_iff_prefix.mp hp
    simpa using h
  · cases h

def replaceGo (pat repl : Text) : Nat → Text → Text
  | _, [] => []
  | skip + 1, _ :: cs => replaceGo pat repl skip cs
  | 0, c :: cs =>
    if pat.isPrefixOf (c :: cs) then repl ++ replaceGo pat repl (pat.length - 1) cs
    else c :: replaceGo pat repl 0 cs

/-- Replace every non-overlapping occurrence of the non-empty `pat`, from the left. -/
def replace (pat repl s : Text) : Text := replaceGo pat repl 0 s

/-- Concatenate the pieces with `sep` between them. -/
def join (sep : Text) (pieces : List Text) : Text := sep.intercalate pieces

/-- Decimal digits of a natural number. -/
def ofNat (n : Nat) : Text := Nat.toDigits 10 n

/-- The maximal runs of characters other than white space. -/
def splitWhitespace (s : Text) : List Text := (s.splitOnP isWhitespace).filter (!·.isEmpty)

/-- Decimal digits, after an optional plus sign, of a number below `bound`. -/
def parseUnsigned (bound : Nat) (s : Text) : Option Nat :=
  let digits := if s.head? = some '+' then s.tail else s
  let value := digits.foldl (fun n c => 10 * n + (c.toNat - '0'.toNat)) 0
  if digits ≠ [] ∧ digits.all isAsciiDigit ∧ value < bound then some value else none

def toUtf8 (s : Text) : Bytes := s.flatMap String.utf8EncodeChar

theorem toUtf8_injective {s t : Text} (h : toUtf8 s = toUtf8 t) : s = t := by
  have hbytes : (String.ofList s).toByteArray = (String.ofList t).toByteArray := by
    rw [String.toByteArray_ofList, String.toByteArray_ofList]
    unfold List.utf8Encode
    exact congrArg List.toByteArray h
  simpa using congrArg String.toList (String.toByteArray_inj.mp hbytes)

theorem length_toUtf8 (s : Text) : (toUtf8 s).length = utf8Len s := by
  induction s with
  | nil => rfl
  | cons c cs ih =>
    rw [utf8Len_cons, ← ih, toUtf8, List.flatMap_cons, List.length_append]
    simp [toUtf8]

/-- Decode UTF-8, or nothing when the bytes are malformed. -/
def fromUtf8 (bytes : Bytes) : Option Text :=
  (ByteArray.utf8Decode? ⟨bytes.toArray⟩).map Array.toList

def stripCr (s : Text) : Text :=
  if s.getLast? = some '\r' then s.dropLast else s

def linesGo (acc : Text) : Text → List Text
  | [] => if acc = [] then [] else [acc]
  | c :: cs => if c = '\n' then stripCr acc :: linesGo [] cs else linesGo (acc ++ [c]) cs

/-- Lines ended by `\n` or `\r\n`, without their terminator; a last line without a newline keeps a
trailing `\r`, and nothing follows a final newline. -/
def lines (s : Text) : List Text := linesGo [] s

example : splitWhitespace " -1,2 +1  @@" = [("-1,2" : Text), "+1", "@@"] := by decide

example : lines "a\r\nb\n\nc\r" = [("a" : Text), ("b" : Text), [], ("c\r" : Text)] := by decide

end Text

/-- Escape of a character by its code in hexadecimal. -/
private def unicodeEscape (c : Char) : Text :=
  ['\\', 'u', '\x7b'] ++ Nat.toDigits 16 c.toNat ++ ['\x7d']

private def debugChar (c : Char) : Text :=
  if c = '"' then "\\\"" else if c = '\\' then "\\\\"
  else if c = '\n' then "\\n" else if c = '\r' then "\\r" else if c = '\t' then "\\t"
  else if c = '\x00' then "\\0"
  else if isEscapedInDebug c then unicodeEscape c
  else [c]

/-- Quoted form that a debug print shows for a string. -/
def debugQuoted (s : Text) : Text := ['"'] ++ s.flatMap debugChar ++ ['"']

private def hexNum (digits : Text) : Nat :=
  digits.foldl (fun n d => 16 * n + if d.toNat < 58 then d.toNat - 48 else d.toNat - 87) 0

/-- Read back one character of a debug print. -/
private def undebug : Text → Option (Char × Text)
  | [] => none
  | c :: s =>
    if c ≠ '\\' then some (c, s)
    else
      match s with
      | [] => none
      | k :: s =>
        if k = 'n' then some ('\n', s) else if k = 'r' then some ('\r', s)
        else if k = 't' then some ('\t', s) else if k = '0' then some ('\x00', s)
        else if k = 'u' then
          some (Char.ofNat (hexNum ((s.drop 1).takeWhile (· ≠ '\x7d'))),
            (s.dropWhile (· ≠ '\x7d')).drop 1)
        else some (k, s)

private theorem hexNum_append (s : Text) (d : Char) :
    hexNum (s ++ [d]) = 16 * hexNum s + if d.toNat < 58 then d.toNat - 48 else d.toNat - 87 := by
  simp [hexNum]

private theorem hexNum_toDigits (n : Nat) : hexNum (Nat.toDigits 16 n) = n := by
  have hdigit : ∀ n < 16, hexNum [Nat.digitChar n] = n := by decide
  induction n using Nat.strongRecOn with
  | ind n ih =>
    by_cases hsmall : n < 16
    · rw [Nat.toDigits_of_lt_base hsmall, hdigit n hsmall]
    · have hlast : hexNum [Nat.digitChar (n % 16)] = n % 16 := hdigit _ (Nat.mod_lt _ (by decide))
      rw [Nat.toDigits_of_base_le (by decide) (Nat.le_of_not_lt hsmall), hexNum_append,
        ih (n / 16) (by omega)]
      have hone := hexNum_append [] (Nat.digitChar (n % 16))
      rw [List.nil_append, hlast, show hexNum [] = 0 from rfl] at hone
      omega

private theorem ne_brace_of_mem_toDigits {n : Nat} {c : Char} (h : c ∈ Nat.toDigits 16 n) :
    c ≠ '\x7d' := by
  have hdigit : ∀ n < 16, Nat.digitChar n ≠ '\x7d' := by decide
  induction n using Nat.strongRecOn with
  | ind n ih =>
    by_cases hsmall : n < 16
    · rw [Nat.toDigits_of_lt_base hsmall, List.mem_singleton] at h
      rw [h]
      exact hdigit n hsmall
    · rw [Nat.toDigits_of_base_le (by decide) (Nat.le_of_not_lt hsmall), List.mem_append,
        List.mem_singleton] at h
      rcases h with h | h
      · exact ih (n / 16) (by omega) h
      · rw [h]
        exact hdigit _ (Nat.mod_lt _ (by decide))

private theorem undebug_unicodeEscape (c : Char) (s : Text) :
    undebug (unicodeEscape c ++ s) = some (c, s) := by
  have hdigits : ∀ d ∈ Nat.toDigits 16 c.toNat, decide (d ≠ '\x7d') = true := fun d hd =>
    decide_eq_true (ne_brace_of_mem_toDigits hd)
  have htake : (Nat.toDigits 16 c.toNat ++ '\x7d' :: s).takeWhile (· ≠ '\x7d') =
      Nat.toDigits 16 c.toNat := by
    rw [List.takeWhile_append_of_pos hdigits]
    simp
  have hdrop : (Nat.toDigits 16 c.toNat ++ '\x7d' :: s).dropWhile (· ≠ '\x7d') = '\x7d' :: s := by
    rw [List.dropWhile_append_of_pos hdigits]
    simp
  have hshape : unicodeEscape c ++ s =
      '\\' :: 'u' :: '\x7b' :: (Nat.toDigits 16 c.toNat ++ '\x7d' :: s) := by
    simp [unicodeEscape]
  have hbrace : ('\x7b' :: (Nat.toDigits 16 c.toNat ++ '\x7d' :: s)).dropWhile (· ≠ '\x7d') =
      '\x7d' :: s := by
    rw [List.dropWhile_cons_of_pos (by decide), hdrop]
  rw [hshape]
  simp only [undebug, List.drop_succ_cons, List.drop_zero, htake, hbrace, hexNum_toDigits,
    Char.ofNat_toNat]
  rfl

private theorem undebug_debugChar (c : Char) (s : Text) :
    undebug (debugChar c ++ s) = some (c, s) := by
  unfold debugChar
  split_ifs with h₁ h₂ h₃ h₄ h₅ h₆ h₇
  · subst h₁
    rfl
  · subst h₂
    rfl
  · subst h₃
    rfl
  · subst h₄
    rfl
  · subst h₅
    rfl
  · subst h₆
    rfl
  · exact undebug_unicodeEscape c s
  · simp [undebug, h₂]

/-- A debug print tells where it ends and what it shows. -/
theorem debugQuoted_append_inj {a b x y : Text} (h : debugQuoted a ++ x = debugQuoted b ++ y) :
    a = b ∧ x = y := by
  have hquote : ∀ c s t, debugChar c ++ s ≠ '"' :: t := by
    intro c s t heq
    unfold debugChar unicodeEscape at heq
    split_ifs at heq <;> simp_all
  have hinner : ∀ a b : Text, a.flatMap debugChar ++ '"' :: x = b.flatMap debugChar ++ '"' :: y →
      a = b ∧ x = y := by
    intro a
    induction a with
    | nil =>
      intro b heq
      cases b with
      | nil => simpa using heq
      | cons d b =>
        rw [List.flatMap_nil, List.nil_append, List.flatMap_cons, List.append_assoc] at heq
        exact absurd heq.symm (hquote d _ _)
    | cons c a ih =>
      intro b heq
      rw [List.flatMap_cons, List.append_assoc] at heq
      cases b with
      | nil =>
        rw [List.flatMap_nil, List.nil_append] at heq
        exact absurd heq (hquote c _ _)
      | cons d b =>
        rw [List.flatMap_cons, List.append_assoc] at heq
        have hread := congrArg undebug heq
        rw [undebug_debugChar, undebug_debugChar] at hread
        injection hread with hread
        injection hread with hc hrest
        obtain ⟨rfl, hxy⟩ := ih b hrest
        exact ⟨by rw [hc], hxy⟩
  apply hinner
  simpa [debugQuoted] using h

theorem bind_eq_ok {ε α β : Type} {x : Except ε α} {f : α → Except ε β} {b : β} :
    (x >>= f) = .ok b ↔ ∃ a, x = .ok a ∧ f a = .ok b := by
  cases x <;> simp [bind, Except.bind]

theorem bind_eq_error {ε α β : Type} {x : Except ε α} {f : α → Except ε β} {e : ε} :
    (x >>= f) = .error e ↔ x = .error e ∨ ∃ a, x = .ok a ∧ f a = .error e := by
  cases x with
  | error e' => simp [bind, Except.bind]
  | ok a => simp [bind, Except.bind]

end Jitgen
