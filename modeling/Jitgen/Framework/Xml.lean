import Jitgen.Framework.Text

/-!
# Reading XML

A reader for the XML documents of version 1.0 that consist of elements with attributes, character
data and the five predefined entities. Tags are read without optional blanks around `=` and before
the end of an end tag, names are ASCII, and comments, processing instructions, sections and
character references are not read. A document is read character by character into the events of its
markup.
-/

namespace Jitgen

open Text

namespace Xml

/-- The production `Char`. -/
def isChar (c : Char) : Bool :=
  let n := c.toNat
  n == 0x9 || n == 0xA || n == 0xD || (0x20 ≤ n && n ≤ 0xD7FF) || (0xE000 ≤ n && n ≤ 0xFFFD) ||
    0x10000 ≤ n

/-- The production `S`. -/
def isSpace (c : Char) : Bool := c == ' ' || c == '\t' || c == '\n' || c == '\r'

def isNameStart (c : Char) : Bool := isAsciiUpper c || isAsciiLower c || c == '_' || c == ':'

def isNameChar (c : Char) : Bool := isNameStart c || isAsciiDigit c || c == '-' || c == '.'

/-- The predefined entities. -/
def entity (name : Text) : Option Char :=
  if name = "amp" then some '&'
  else if name = "lt" then some '<'
  else if name = "gt" then some '>'
  else if name = "quot" then some '"'
  else if name = "apos" then some '\''
  else none

structure Tag where
  name : Text
  attrs : List (Text × Text)
  deriving DecidableEq

inductive Event where
  | start (tag : Tag)
  | char (c : Char)
  | finish (name : Text)
  deriving DecidableEq

/-- Where in the markup the reader is. -/
inductive Mode where
  | content (brackets : Nat)
  | reference (name : Text)
  | markup
  | startName (name : Text)
  | tagEnd (tag : Tag)
  | inTag (tag : Tag)
  | attrName (tag : Tag) (attr : Text)
  | attrQuote (tag : Tag) (attr : Text)
  | attrValue (tag : Tag) (attr : Text) (quote : Char) (value : Text)
  | attrReference (tag : Tag) (attr : Text) (quote : Char) (value name : Text)
  | emptyTag (tag : Tag)
  | endName (name : Text)
  deriving DecidableEq

/-- The reader between two characters: the open elements, the innermost first, and whether the root
element has begun. -/
structure Reader where
  mode : Mode
  opened : List Text
  rooted : Bool
  deriving DecidableEq

namespace Reader

def goto (r : Reader) (mode : Mode) : Option (Reader × List Event) :=
  some ({ r with mode := mode }, [])

def openTag (r : Reader) (tag : Tag) : Option (Reader × List Event) :=
  some (⟨.content 0, tag.name :: r.opened, true⟩, [.start tag])

/-- What follows the name or a value in a tag. -/
def closeTag (r : Reader) (tag : Tag) (c : Char) : Option (Reader × List Event) :=
  if isSpace c then r.goto (.inTag tag)
  else if c = '/' then r.goto (.emptyTag tag)
  else if c = '>' then r.openTag tag
  else none

/-- Read one character where the reader is. -/
def next (r : Reader) (c : Char) : Option (Reader × List Event) :=
  match r.mode with
  | .content brackets =>
    if c = '<' then r.goto .markup
    else if r.opened.isEmpty then if isSpace c then r.goto (.content 0) else none
    else if c = '&' then r.goto (.reference [])
    else if c = '>' ∧ 2 ≤ brackets then none
    else some ({ r with mode := .content (if c = ']' then brackets + 1 else 0) }, [.char c])
  | .reference name =>
    if c = ';' then (entity name).map fun d => ({ r with mode := .content 0 }, [.char d])
    else r.goto (.reference (name ++ [c]))
  | .markup =>
    if c = '/' then r.goto (.endName [])
    else if isNameStart c && (!r.opened.isEmpty || !r.rooted) then r.goto (.startName [c])
    else none
  | .startName name =>
    if isNameChar c then r.goto (.startName (name ++ [c])) else r.closeTag ⟨name, []⟩ c
  | .tagEnd tag => r.closeTag tag c
  | .inTag tag => if isNameStart c then r.goto (.attrName tag [c]) else r.closeTag tag c
  | .attrName tag attr =>
    if isNameChar c then r.goto (.attrName tag (attr ++ [c]))
    else if c = '=' ∧ attr ∉ tag.attrs.map (·.1) then r.goto (.attrQuote tag attr)
    else none
  | .attrQuote tag attr =>
    if c = '"' ∨ c = '\'' then r.goto (.attrValue tag attr c []) else none
  | .attrValue tag attr quote value =>
    if c = quote then r.goto (.tagEnd ⟨tag.name, tag.attrs ++ [(attr, value)]⟩)
    else if c = '<' then none
    else if c = '&' then r.goto (.attrReference tag attr quote value [])
    else r.goto (.attrValue tag attr quote (value ++ [if isSpace c then ' ' else c]))
  | .attrReference tag attr quote value name =>
    if c = ';' then
      (entity name).bind fun d => r.goto (.attrValue tag attr quote (value ++ [d]))
    else r.goto (.attrReference tag attr quote value (name ++ [c]))
  | .emptyTag tag =>
    if c = '>' then
      some (⟨.content 0, r.opened, true⟩, [.start tag, .finish tag.name])
    else none
  | .endName name =>
    if c = '>' then
      match r.opened with
      | top :: rest =>
        if top = name then some (⟨.content 0, rest, r.rooted⟩, [.finish name]) else none
      | [] => none
    else if isNameChar c then r.goto (.endName (name ++ [c]))
    else none

def step (r : Reader) (c : Char) : Option (Reader × List Event) :=
  if isChar c then r.next c else none

def run (r : Reader) : Text → Option (Reader × List Event)
  | [] => some (r, [])
  | c :: t => (r.step c).bind fun x => (x.1.run t).map fun y => (y.1, x.2 ++ y.2)

theorem run_append {r r₁ r₂ : Reader} {s t : Text} {es es' : List Event}
    (hs : r.run s = some (r₁, es)) (ht : r₁.run t = some (r₂, es')) :
    r.run (s ++ t) = some (r₂, es ++ es') := by
  induction s generalizing r es with
  | nil =>
    cases hs
    exact ht
  | cons c s ih =>
    rw [run, Option.bind_eq_some_iff] at hs
    obtain ⟨x, hstep, hs⟩ := hs
    obtain ⟨y, hy, heq⟩ := Option.map_eq_some_iff.mp hs
    cases heq
    rw [List.cons_append, run, hstep, Option.bind_some, ih hy, Option.map_some, List.append_assoc]

theorem isChar_of_run {r : Reader} {t : Text} {x : Reader × List Event} (h : r.run t = some x) :
    ∀ c ∈ t, isChar c = true := by
  induction t generalizing r x with
  | nil => simp
  | cons c t ih =>
    rw [run, Option.bind_eq_some_iff] at h
    obtain ⟨mid, hstep, h⟩ := h
    obtain ⟨y, hy, -⟩ := Option.map_eq_some_iff.mp h
    have hc : isChar c = true := by
      by_contra hc
      simp [step, hc] at hstep
    intro d hd
    rcases List.mem_cons.mp hd with rfl | hd
    · exact hc
    · exact ih hy d hd

theorem run_flatMap {α : Type} {r : Reader} {f : α → Text} {g : α → List Event} {l : List α}
    (h : ∀ x ∈ l, r.run (f x) = some (r, g x)) :
    r.run (l.flatMap f) = some (r, l.flatMap g) := by
  induction l with
  | nil => rfl
  | cons x l ih =>
    exact run_append (h x List.mem_cons_self) (ih fun y hy => h y (List.mem_cons_of_mem x hy))

variable {opened : List Text} {c : Char}

/-- The character comes out of character data when its escape is read. -/
def ReadsData (escape : Char → Text) (c : Char) : Prop :=
  ∀ brackets name names, ∃ brackets',
    run ⟨.content brackets, name :: names, true⟩ (escape c) =
      some (⟨.content brackets', name :: names, true⟩, [.char c])

theorem readsData_self {escape : Char → Text} (hescape : escape c = [c]) (hc : isChar c = true)
    (hlt : c ≠ '<') (hamp : c ≠ '&') (hgt : c ≠ '>') : ReadsData escape c := by
  intro brackets name names
  refine ⟨if c = ']' then brackets + 1 else 0, ?_⟩
  simp [hescape, run, step, next, hc, hlt, hamp, hgt]

theorem run_data {escape : Char → Text} {t : Text} (ht : ∀ c ∈ t, ReadsData escape c)
    (brackets : Nat) (name : Text) (names : List Text) :
    ∃ brackets', run ⟨.content brackets, name :: names, true⟩ (t.flatMap escape) =
      some (⟨.content brackets', name :: names, true⟩, t.map .char) := by
  induction t generalizing brackets with
  | nil => exact ⟨brackets, rfl⟩
  | cons c t ih =>
    obtain ⟨mid, hc⟩ := ht c List.mem_cons_self brackets name names
    obtain ⟨last, hrest⟩ := ih (fun d hd => ht d (List.mem_cons_of_mem c hd)) mid
    exact ⟨last, run_append hc hrest⟩

/-- The character `d` is added to a value in double quotes when the escape of `c` is read. -/
def ReadsValue (escape : Char → Text) (c d : Char) : Prop :=
  ∀ tag attr value names rooted,
    run ⟨.attrValue tag attr '"' value, names, rooted⟩ (escape c) =
      some (⟨.attrValue tag attr '"' (value ++ [d]), names, rooted⟩, [])

theorem readsValue_self {escape : Char → Text} (hescape : escape c = [c]) (hc : isChar c = true)
    (hlt : c ≠ '<') (hamp : c ≠ '&') (hquote : c ≠ '"') :
    ReadsValue escape c (if isSpace c then ' ' else c) := by
  intro tag attr value names rooted
  simp [hescape, run, step, next, goto, hc, hlt, hamp, hquote]

theorem run_value {escape : Char → Text} {flat : Char → Char} {t : Text}
    (ht : ∀ c ∈ t, ReadsValue escape c (flat c)) (tag : Tag) (attr value : Text)
    (names : List Text) (rooted : Bool) :
    run ⟨.attrValue tag attr '"' value, names, rooted⟩ (t.flatMap escape) =
      some (⟨.attrValue tag attr '"' (value ++ t.map flat), names, rooted⟩, []) := by
  induction t generalizing value with
  | nil => simp [run]
  | cons c t ih =>
    have hc := ht c List.mem_cons_self tag attr value names rooted
    have hrest := ih (fun d hd => ht d (List.mem_cons_of_mem c hd)) (value ++ [flat c])
    rw [List.append_assoc] at hrest
    exact run_append hc hrest

end Reader

/-- The declaration that a document may begin with. -/
def declaration : Text := "<?xml version=\"1.0\" encoding=\"UTF-8\"?>"

/-- The events of a document with one root element and every element closed. -/
def read (doc : Text) : Option (List Event) :=
  match Reader.run ⟨.content 0, [], false⟩ ((stripPrefix declaration doc).getD doc) with
  | some (⟨.content _, [], true⟩, es) => some es
  | _ => none

theorem read_of_run {body : Text} {k : Nat} {es : List Event}
    (h : Reader.run ⟨.content 0, [], false⟩ body = some (⟨.content k, [], true⟩, es)) :
    read (declaration ++ body) = some es := by
  have hstrip : stripPrefix declaration (declaration ++ body) = some body := by
    simp [stripPrefix]
  rw [read, hstrip, Option.getD_some, h]

theorem isChar_of_read {doc : Text} {es : List Event} (h : read doc = some es) :
    ∀ c ∈ doc, isChar c = true := by
  have hdeclaration : ∀ c ∈ declaration, isChar c = true :=
    forall_mem_of_all (by decide)
  unfold read at h
  cases hrun : Reader.run ⟨.content 0, [], false⟩ ((stripPrefix declaration doc).getD doc) with
  | none => simp [hrun] at h
  | some x =>
    have hbody := Reader.isChar_of_run hrun
    intro c hc
    cases hstrip : stripPrefix declaration doc with
    | none => exact hbody c (by rwa [hstrip, Option.getD_none])
    | some body =>
      rw [stripPrefix_eq_some hstrip] at hc
      rcases List.mem_append.mp hc with hc | hc
      · exact hdeclaration c hc
      · exact hbody c (by rwa [hstrip, Option.getD_some])

/-- How many elements of a name there are. -/
def count (name : Text) (es : List Event) : Nat :=
  es.countP fun e => match e with
    | .start tag => tag.name == name
    | _ => false

section

variable {name : Text}

theorem count_append (es es' : List Event) :
    count name (es ++ es') = count name es + count name es' :=
  List.countP_append

theorem count_char (t : Text) : count name (t.map .char) = 0 := by
  induction t with
  | nil => rfl
  | cons c t ih => exact (List.countP_cons_of_neg (by simp)).trans ih

theorem count_flatMap {α : Type} (f : α → List Event) (l : List α) :
    count name (l.flatMap f) = (l.map fun x => count name (f x)).sum := List.countP_flatMap

end

example : read "<a b=\"1 &amp; 2\"><c/>]]</a>" =
    some [.start ⟨"a", [("b", "1 & 2")]⟩, .start ⟨"c", []⟩, .finish "c", .char ']', .char ']',
      .finish "a"] := by decide

example : read "<a>]]></a>" = none ∧ read "<a></b>" = none ∧ read "<a b='1' b='2'/>" = none ∧
    read "<a/><b/>" = none := by decide

end Xml

end Jitgen
