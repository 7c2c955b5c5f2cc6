import Jitgen.Context.Redact
import Jitgen.Core.Model
import Jitgen.Report.Escape

/-!
# Context assembly

Items are redacted and cut to the budget as they are added.
-/

namespace Jitgen

open Text

def charsPerToken : Nat := 4

/-- Bytes of an item that are redacted at most; the rest of it is dropped before. -/
def maxRedactInputBytes : Nat := 256 * 1024

def danglingTokenMin : Nat := 8

def charBoundaryPrefix (s : Text) (maxBytes : Nat) : Text := bytePrefix maxBytes s

/-- A long last token may be the head of a secret that the window cut. -/
def dropTrailingToken (s : Text) : Text :=
  let kept := s.rdropWhile (!isWhitespace ·)
  if danglingTokenMin ≤ utf8Len s - utf8Len kept then kept ++ truncationMarker else s

/-- Cut to a number of bytes, the marker included. -/
def truncateItem (s : Text) (maxBytes : Nat) : Text :=
  if utf8Len s ≤ maxBytes then s
  else if maxBytes < utf8Len truncationMarker then bytePrefix maxBytes truncationMarker
  else bytePrefix (maxBytes - utf8Len truncationMarker) s ++ truncationMarker

structure ContextBuilder where
  budget : ContextBudget
  items : List ContextItem
  redacted : Bool
  usedChars : Nat

namespace ContextBuilder

def new (budget : ContextBudget) : ContextBuilder := ⟨budget, [], false, 0⟩

variable [WordChars]

/-- Redact and add an item within the budget; `false` when it was dropped. -/
def add (b : ContextBuilder) (kind : ContextItemKind) (path : Option Text) (content : Text) :
    ContextBuilder × Bool :=
  let remaining := b.budget.maxTokens * charsPerToken - b.usedChars
  if b.budget.maxFiles ≤ b.items.length || remaining = 0 then (b, false)
  else
    let window := charBoundaryPrefix content maxRedactInputBytes
    let red := redact window
    let text := if utf8Len window < utf8Len content then dropTrailingToken red.text else red.text
    -- a dropped token counts as a redaction, also when the item itself is dropped
    let b := { b with redacted := b.redacted || red.redacted || text ≠ red.text }
    let body := truncateItem text (min b.budget.maxBytesPerFile remaining)
    if body.isEmpty && !content.isEmpty then (b, false)
    else ({ b with items := b.items ++ [⟨kind, path, body⟩]
                   usedChars := b.usedChars + utf8Len body }, true)

def build (b : ContextBuilder) (target : TargetId) : ContextBundle :=
  ⟨target, b.items, b.budget, b.redacted⟩

end ContextBuilder

end Jitgen
