import Jitgen.Llm.Real
import Mathlib.Data.Char
import Mathlib.Data.List.Lex
import Mathlib.Data.List.Sort

/-!
# Written JSON

What the request bodies need of the writer, and a compact writer that has it: keys in order, no
blanks, strings quoted with short escapes.
-/

namespace Jitgen

open Text

mutual

/-- A value without the texts of its strings; keys and numbers stay. -/
def Json.skeleton : Json → Json
  | .null => .null
  | .bool b => .bool b
  | .number x => .number x
  | .string _ => .string []
  | .array items => .array (skeletonItems items)
  | .object fields => .object (skeletonFields fields)

def Json.skeletonItems : List Json → List Json
  | [] => []
  | v :: vs => v.skeleton :: skeletonItems vs

def Json.skeletonFields : List (Text × Json) → List (Text × Json)
  | [] => []
  | (k, v) :: fs => (k, v.skeleton) :: skeletonFields fs

end

/-- Different strings in the same places of a value are written differently. -/
def WritesStrings [JsonLibrary] : Prop :=
  ∀ v w : Json, v.skeleton = w.skeleton → JsonLibrary.toText v = JsonLibrary.toText w → v = w

namespace JsonWriter

def hexDigit (n : Nat) : Char := if n < 10 then Char.ofNat (48 + n) else Char.ofNat (87 + n)

def escapeChar (c : Char) : Text :=
  if c = '"' then ['\\', '"']
  else if c = '\\' then ['\\', '\\']
  else if c.toNat = 8 then ['\\', 'b']
  else if c = '\t' then ['\\', 't']
  else if c = '\n' then ['\\', 'n']
  else if c.toNat = 12 then ['\\', 'f']
  else if c = '\r' then ['\\', 'r']
  else if c.toNat < 32 then ['\\', 'u', '0', '0', hexDigit (c.toNat / 16), hexDigit (c.toNat % 16)]
  else [c]

def quote (s : Text) : Text := '"' :: (s.flatMap escapeChar ++ ['"'])

def hexValue (c : Char) : Nat := if c.toNat < 58 then c.toNat - 48 else c.toNat - 87

def unescape (c : Char) : Char :=
  if c = 'b' then Char.ofNat 8 else if c = 't' then '\t' else if c = 'n' then '\n'
  else if c = 'f' then Char.ofNat 12 else if c = 'r' then '\r' else c

/-- Read up to the closing quote. -/
def readString : Text → Option (Text × Text)
  | [] => none
  | '"' :: rest => some ([], rest)
  | '\\' :: 'u' :: _ :: _ :: a :: b :: rest =>
    (readString rest).map fun x => (Char.ofNat (16 * hexValue a + hexValue b) :: x.1, x.2)
  | '\\' :: c :: rest => (readString rest).map fun x => (unescape c :: x.1, x.2)
  | c :: rest => (readString rest).map fun x => (c :: x.1, x.2)

theorem hexValue_hexDigit {n : Nat} (h : n < 16) : hexValue (hexDigit n) = n := by
  revert n
  decide

private theorem readString_escapeChar (c : Char) (rest : Text) :
    readString (escapeChar c ++ rest) = (readString rest).map fun x => (c :: x.1, x.2) := by
  unfold escapeChar
  by_cases hquote : c = '"'
  · subst hquote
    simp [readString, unescape]
  by_cases hback : c = '\\'
  · subst hback
    simp [readString, unescape]
  by_cases hbs : c.toNat = 8
  · have hc : c = Char.ofNat 8 := by rw [← hbs, Char.ofNat_toNat]
    simp [hc, readString, unescape]
  by_cases htab : c = '\t'
  · subst htab
    simp [readString, unescape]
  by_cases hnl : c = '\n'
  · subst hnl
    simp [readString, unescape]
  by_cases hff : c.toNat = 12
  · have hc : c = Char.ofNat 12 := by rw [← hff, Char.ofNat_toNat]
    simp [hc, readString, unescape]
  by_cases hcr : c = '\r'
  · subst hcr
    simp [readString, unescape]
  rw [if_neg hquote, if_neg hback, if_neg hbs, if_neg htab, if_neg hnl, if_neg hff, if_neg hcr]
  by_cases hcontrol : c.toNat < 32
  · have hvalue : 16 * hexValue (hexDigit (c.toNat / 16)) + hexValue (hexDigit (c.toNat % 16)) =
        c.toNat := by
      rw [hexValue_hexDigit (by omega), hexValue_hexDigit (by omega)]
      omega
    rw [if_pos hcontrol]
    simp [readString, hvalue]
  · rw [if_neg hcontrol]
    simp [readString, hback]

private theorem readString_quote (s rest : Text) :
    readString (s.flatMap escapeChar ++ '"' :: rest) = some (s, rest) := by
  induction s with
  | nil => rfl
  | cons c s ih =>
    rw [List.flatMap_cons, List.append_assoc, readString_escapeChar, ih]
    rfl

private theorem quote_inj {s s' rest rest' : Text} (h : quote s ++ rest = quote s' ++ rest') :
    s = s' ∧ rest = rest' := by
  simp only [quote, List.cons_append, List.append_assoc, List.nil_append, List.cons.injEq,
    true_and] at h
  have hread := congrArg readString h
  rw [readString_quote, readString_quote] at hread
  exact Prod.mk.inj (Option.some.inj hread)

/-- Entries in the order of their keys. -/
def sortEntries {α : Type} : List (Text × α) → List (Text × α) :=
  List.insertionSort fun a b => a.1 ≤ b.1

def writeEntry (e : Text × Text) : Text := quote e.1 ++ [':'] ++ e.2

variable (number : Binary64 → Text)

mutual

def write : Json → Text
  | .null => "null"
  | .bool true => "true"
  | .bool false => "false"
  | .number x => number x
  | .string s => quote s
  | .array items => '[' :: (join "," (writeItems items) ++ [']'])
  | .object fields => '\x7b' :: (join "," ((sortEntries (writeFields fields)).map writeEntry) ++ ['\x7d'])

def writeItems : List Json → List Text
  | [] => []
  | v :: vs => write v :: writeItems vs

def writeFields : List (Text × Json) → List (Text × Text)
  | [] => []
  | (k, v) :: fs => (k, write v) :: writeFields fs

end

/-- Texts that can be told apart with anything behind them. -/
def Separate (t t' : Text) : Prop := ∀ r r', t ++ r = t' ++ r' → t = t' ∧ r = r'

private theorem join_separate {ts ts' : List Text} (h : List.Forall₂ Separate ts ts') {r r' : Text}
    (heq : join "," ts ++ r = join "," ts' ++ r') : ts = ts' ∧ r = r' := by
  induction h generalizing r r' with
  | nil => exact ⟨rfl, heq⟩
  | @cons t t' ts ts' ht hts ih =>
    cases hts with
    | nil =>
      have hjoin : ∀ t : Text, join "," [t] = t := fun t => by simp [join]
      rw [hjoin, hjoin] at heq
      obtain ⟨hsame, hrest⟩ := ht _ _ heq
      exact ⟨by rw [hsame], hrest⟩
    | @cons u u' us us' hu hus =>
      have hjoin : ∀ (t u : Text) (us : List Text),
          join "," (t :: u :: us) = t ++ (',' :: join "," (u :: us)) := fun t u us => by
        rw [join, List.intercalate_cons_cons, ← join]
        simp
      rw [hjoin, hjoin, List.append_assoc, List.append_assoc] at heq
      obtain ⟨hsame, hrest⟩ := ht _ _ heq
      obtain ⟨htail, hrest⟩ := ih (List.cons.inj hrest).2
      exact ⟨by rw [hsame, htail], hrest⟩

/-- Entries with the same key and values that can be told apart. -/
def SameKey (e e' : Text × Text) : Prop := e.1 = e'.1 ∧ Separate e.2 e'.2

private theorem SameKey.writeEntry {e e' : Text × Text} (h : SameKey e e') :
    Separate (writeEntry e) (writeEntry e') := by
  intro r r' heq
  unfold JsonWriter.writeEntry at heq ⊢
  rw [h.1] at heq ⊢
  simp only [List.append_assoc, List.append_cancel_left_eq] at heq ⊢
  exact h.2 r r' heq

private theorem orderedInsert_sameKey {e e' : Text × Text} (he : SameKey e e')
    {es es' : List (Text × Text)} (hes : List.Forall₂ SameKey es es') :
    List.Forall₂ SameKey (es.orderedInsert (fun a b => a.1 ≤ b.1) e)
      (es'.orderedInsert (fun a b => a.1 ≤ b.1) e') := by
  induction hes with
  | nil => exact .cons he .nil
  | @cons f f' fs fs' hf hfs ih =>
    rw [List.orderedInsert_cons, List.orderedInsert_cons, he.1, hf.1]
    split_ifs
    · exact .cons he (.cons hf hfs)
    · exact .cons hf ih

private theorem sortEntries_sameKey {es es' : List (Text × Text)}
    (h : List.Forall₂ SameKey es es') :
    List.Forall₂ SameKey (sortEntries es) (sortEntries es') := by
  induction h with
  | nil => exact .nil
  | cons he _ ih => exact orderedInsert_sameKey he ih

private theorem orderedInsert_inj {e e' : Text × Text} (he : SameKey e e')
    {es es' : List (Text × Text)} (hes : List.Forall₂ SameKey es es')
    (h : es.orderedInsert (fun a b => a.1 ≤ b.1) e = es'.orderedInsert (fun a b => a.1 ≤ b.1) e') :
    e = e' ∧ es = es' := by
  induction hes with
  | nil => exact ⟨(List.cons.inj h).1, rfl⟩
  | @cons f f' fs fs' hf hfs ih =>
    rw [List.orderedInsert_cons, List.orderedInsert_cons, he.1, hf.1] at h
    split_ifs at h
    · exact List.cons.inj h
    · obtain ⟨hhead, htail⟩ := List.cons.inj h
      obtain ⟨hsame, hrest⟩ := ih htail
      exact ⟨hsame, by rw [hhead, hrest]⟩

private theorem map_writeEntry_inj {es es' : List (Text × Text)} (hes : List.Forall₂ SameKey es es')
    (h : es.map writeEntry = es'.map writeEntry) : es = es' := by
  induction hes with
  | nil => rfl
  | @cons e e' es es' he _ ih =>
    obtain ⟨hhead, htail⟩ := List.cons.inj h
    unfold writeEntry at hhead
    rw [he.1] at hhead
    have hvalue : e.2 = e'.2 := List.append_cancel_left hhead
    rw [Prod.ext he.1 hvalue, ih htail]

private theorem sortEntries_inj {es es' : List (Text × Text)} (hes : List.Forall₂ SameKey es es')
    (h : sortEntries es = sortEntries es') : es = es' := by
  induction hes with
  | nil => rfl
  | cons he hes ih =>
    obtain ⟨hhead, htail⟩ := orderedInsert_inj he (sortEntries_sameKey hes) h
    rw [hhead, ih htail]

variable {number}

/-- Values that are told apart by what is written for them. -/
def Told (number : Binary64 → Text) (v w : Json) : Prop :=
  ∀ r r', write number v ++ r = write number w ++ r' → v = w ∧ r = r'

theorem Told.separate {v w : Json} (h : Told number v w) :
    Separate (write number v) (write number w) := by
  intro r r' heq
  obtain ⟨hsame, hrest⟩ := h r r' heq
  exact ⟨by rw [hsame], hrest⟩

theorem Told.eq {v w : Json} (h : Told number v w) (heq : write number v = write number w) :
    v = w :=
  (h [] [] (by rw [heq])).1

mutual

private theorem told_of_skeleton : ∀ v w : Json, v.skeleton = w.skeleton → Told number v w
  | .null, w, hs => by
    cases w <;> simp [Json.skeleton] at hs
    exact fun r r' heq => ⟨rfl, List.append_cancel_left heq⟩
  | .bool b, w, hs => by
    cases w <;> simp [Json.skeleton] at hs
    subst hs
    exact fun r r' heq => ⟨rfl, List.append_cancel_left heq⟩
  | .number x, w, hs => by
    cases w <;> simp [Json.skeleton] at hs
    subst hs
    exact fun r r' heq => ⟨rfl, List.append_cancel_left heq⟩
  | .string s, w, hs => by
    cases w <;> simp [Json.skeleton] at hs
    intro r r' heq
    obtain ⟨hsame, hrest⟩ := quote_inj heq
    exact ⟨by rw [hsame], hrest⟩
  | .array items, w, hs => by
    cases w <;> simp [Json.skeleton] at hs
    rename_i items'
    obtain ⟨hseparate, hitems⟩ := told_items items items' hs
    intro r r' heq
    simp only [write, List.cons_append, List.append_assoc, List.cons.injEq, true_and] at heq
    obtain ⟨hsame, hrest⟩ := join_separate hseparate heq
    exact ⟨by rw [hitems hsame], (List.cons.inj hrest).2⟩
  | .object fields, w, hs => by
    cases w <;> simp [Json.skeleton] at hs
    rename_i fields'
    obtain ⟨hkeys, hfields⟩ := told_fields fields fields' hs
    intro r r' heq
    simp only [write, List.cons_append, List.append_assoc, List.cons.injEq, true_and] at heq
    have hsorted := sortEntries_sameKey hkeys
    have hwritten : List.Forall₂ Separate
        ((sortEntries (writeFields number fields)).map writeEntry)
        ((sortEntries (writeFields number fields')).map writeEntry) := by
      rw [List.forall₂_map_left_iff, List.forall₂_map_right_iff]
      exact hsorted.imp fun _ _ h => h.writeEntry
    obtain ⟨hsame, hrest⟩ := join_separate hwritten heq
    have hentries : sortEntries (writeFields number fields) =
        sortEntries (writeFields number fields') := map_writeEntry_inj hsorted hsame
    exact ⟨by rw [hfields (sortEntries_inj hkeys hentries)], (List.cons.inj hrest).2⟩

private theorem told_items : ∀ vs ws : List Json, Json.skeletonItems vs = Json.skeletonItems ws →
    List.Forall₂ Separate (writeItems number vs) (writeItems number ws) ∧
      (writeItems number vs = writeItems number ws → vs = ws)
  | [], [], _ => ⟨.nil, fun _ => rfl⟩
  | [], _ :: _, hs => by simp [Json.skeletonItems] at hs
  | _ :: _, [], hs => by simp [Json.skeletonItems] at hs
  | v :: vs, w :: ws, hs => by
    simp only [Json.skeletonItems, List.cons.injEq] at hs
    have htold := told_of_skeleton v w hs.1
    obtain ⟨hseparate, hitems⟩ := told_items vs ws hs.2
    refine ⟨.cons htold.separate hseparate, fun heq => ?_⟩
    obtain ⟨hhead, htail⟩ := List.cons.inj heq
    rw [htold.eq hhead, hitems htail]

private theorem told_fields : ∀ fs gs : List (Text × Json),
    Json.skeletonFields fs = Json.skeletonFields gs →
    List.Forall₂ SameKey (writeFields number fs) (writeFields number gs) ∧
      (writeFields number fs = writeFields number gs → fs = gs)
  | [], [], _ => ⟨.nil, fun _ => rfl⟩
  | [], _ :: _, hs => by simp [Json.skeletonFields] at hs
  | _ :: _, [], hs => by simp [Json.skeletonFields] at hs
  | (k, v) :: fs, (l, w) :: gs, hs => by
    simp only [Json.skeletonFields, List.cons.injEq, Prod.mk.injEq] at hs
    have htold := told_of_skeleton v w hs.1.2
    obtain ⟨hkeys, hfields⟩ := told_fields fs gs hs.2
    refine ⟨.cons ⟨hs.1.1, htold.separate⟩ hkeys, fun heq => ?_⟩
    obtain ⟨hhead, htail⟩ := List.cons.inj heq
    rw [hs.1.1, htold.eq (Prod.mk.inj hhead).2, hfields htail]

end

end JsonWriter

/-- The compact writer, for values whose only number is the output bound. -/
abbrev compactJson : JsonLibrary where
  fromStr := fun _ => none
  readError := fun _ => []
  toText := JsonWriter.write fun _ => "4096"

theorem compactJson_writesStrings : @WritesStrings compactJson := by
  intro v w hskeleton heq
  exact (JsonWriter.told_of_skeleton v w hskeleton).eq heq

example : JsonWriter.write (fun _ => "4096") (.object [("b", .string "x\n\""), ("a", .null)]) =
    ("\x7b\"a\":null,\"b\":\"x\\n\\\"\"\x7d" : Text) := by decide

end Jitgen
