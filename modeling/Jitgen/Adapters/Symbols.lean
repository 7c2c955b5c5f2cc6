import Jitgen.Adapters.Lang

/-!
# Symbol extraction

A changed line range is mapped to the smallest declaration around its first line, with the range
itself as the target where there is none.
-/

namespace Jitgen

open Text

/-- A node of a syntax tree; a child may be a named field of its parent. -/
inductive SyntaxNode where
  | mk (kind : Text) (startRow endRow startByte endByte : Nat)
    (children : List (Option Text × SyntaxNode))

namespace SyntaxNode

def kind : SyntaxNode → Text
  | mk kind _ _ _ _ _ => kind

/-- First row, counted from zero. -/
def startRow : SyntaxNode → Nat
  | mk _ row _ _ _ _ => row

def endRow : SyntaxNode → Nat
  | mk _ _ row _ _ _ => row

def startByte : SyntaxNode → Nat
  | mk _ _ _ byte _ _ => byte

def endByte : SyntaxNode → Nat
  | mk _ _ _ _ byte _ => byte

def children : SyntaxNode → List (Option Text × SyntaxNode)
  | mk _ _ _ _ _ children => children

def childByFieldName (n : SyntaxNode) (field : Text) : Option SyntaxNode :=
  (n.children.find? fun child => child.1 = some field).map Prod.snd

def utf8Text (n : SyntaxNode) (source : Bytes) : Option Text :=
  fromUtf8 ((source.drop n.startByte).take (n.endByte - n.startByte))

/-- The nodes of a tree. -/
inductive Within : SyntaxNode → SyntaxNode → Prop where
  | root (n : SyntaxNode) : Within n n
  | child {n m root : SyntaxNode} {field : Option Text} (h : Within m root)
      (hn : (field, n) ∈ m.children) : Within n root

end SyntaxNode

/-- The parser that the grammars are compiled into. -/
class TreeSitter where
  /-- The tree of a source; nothing when the deadline cancels the parse. -/
  parse : Lang → Bytes → Option SyntaxNode
  /-- Rows are rows of the source, which has a byte for every newline. -/
  rows_in_source : ∀ {lang : Lang} {source : Bytes} {root n : SyntaxNode},
    parse lang source = some root → n.Within root → n.endRow ≤ source.length

def maxSourceBytes : Nat := 2 * 1024 * 1024

def maxHunks : Nat := 1000

def maxDescent : Nat := 10000

def nextId (seq : Nat) : TargetId := "t" ++ ofNat seq

/-- A node with the parent that it was reached from. -/
structure Located where
  node : SyntaxNode
  parent : Option SyntaxNode

def containsRow (row : Nat) (n : SyntaxNode) : Bool := n.startRow ≤ row && row ≤ n.endRow

def symbolKind (kinds : List (Text × SymbolKind)) (n : SyntaxNode) : Option SymbolKind :=
  (kinds.find? fun k => k.1 = n.kind).map Prod.snd

def byteLen (n : SyntaxNode) : Nat := n.endByte - n.startByte

/-- Keep the smallest declaration, and the first of several smallest ones. -/
def better (kinds : List (Text × SymbolKind)) (best : Option (Located × SymbolKind))
    (l : Located) : Option (Located × SymbolKind) :=
  match symbolKind kinds l.node with
  | none => best
  | some kind =>
    match best with
    | none => some (l, kind)
    | some b => if byteLen l.node < byteLen b.1.node then some (l, kind) else best

/-- The children that contain the row, the last one on top of the stack. -/
def push (row : Nat) (n : SyntaxNode) (stack : List Located) : List Located :=
  ((n.children.map Prod.snd).filter (containsRow row)).reverse.map (⟨·, some n⟩) ++ stack

/-- The search from a stack; the budget is checked before a node is looked at. -/
def search (kinds : List (Text × SymbolKind)) (row : Nat) :
    (budget : Nat) → List Located → Option (Located × SymbolKind) → Option (Located × SymbolKind)
  | 0, _, best => best
  | _ + 1, [], best => best
  | budget + 1, l :: stack, best =>
    if budget = 0 then best
    else search kinds row budget (push row l.node stack) (better kinds best l)

/-- Innermost declaration that contains the row. -/
def enclosing (root : SyntaxNode) (row : Nat) (kinds : List (Text × SymbolKind)) :
    Option (Located × SymbolKind) :=
  if containsRow row root then search kinds row maxDescent [⟨root, none⟩] none else none

/-- Field of the parent that names an anonymous function. -/
def boundNameField (parentKind : Text) : Option Text :=
  if parentKind = "variable_declarator" then some "name"
  else if parentKind = "pair" ∨ parentKind = "public_field_definition" ∨
      parentKind = "field_definition" then some "key"
  else if parentKind = "assignment_expression" then some "left"
  else none

def nodeName (l : Located) (source : Bytes) : Option Text :=
  match l.node.childByFieldName "name" with
  | some name => name.utf8Text source
  | none => do
    let parent ← l.parent
    let field ← boundNameField parent.kind
    let name ← parent.childByFieldName field
    name.utf8Text source

/-- Lines of the hunks inside the span, counted once for every hunk. -/
def changedLines (span : LineRange) (hunks : List LineRange) : Nat :=
  (hunks.map fun h => min h.end span.end + 1 - max h.start span.start).sum

def halfRisk : RiskScore := ⟨.half, by decide, by decide⟩

/-- Fraction of the symbol's lines that changed, between `0.05` and `1`. -/
def symbolRisk (span : LineRange) (hunks : List LineRange) : RiskScore :=
  let ratio := (Binary64.ratio (changedLines span hunks) (span.end - span.start + 1)).clamp
    .oneTwentieth .one
  (RiskScore.new ratio).getD halfRisk

def fallbackHunks (path : Text) (adapter : AdapterId) (hunks : List LineRange) (seq : Nat) :
    List Target × Nat :=
  (hunks.mapIdx fun i h =>
    { id := nextId (seq + i), adapter := adapter, path := path, symbol := none, kind := .hunk
      span := h, risk := halfRisk },
    seq + hunks.length)

/-- Targets found and hunks left over so far, with the next id. -/
structure Extraction where
  targets : List Target
  unmatched : List LineRange
  seq : Nat

/-- The span of a declaration; rows are narrowed to 32 bits. -/
def nodeSpan (n : SyntaxNode) : Option LineRange :=
  LineRange.new ((n.startRow + 1) % 2 ^ 32) ((n.endRow + 1) % 2 ^ 32)

/-- One hunk: only its first line is looked up. -/
def extractHunk (root : SyntaxNode) (kinds : List (Text × SymbolKind)) (source : Bytes) (path : Text)
    (adapter : AdapterId) (capped : List LineRange) (st : Extraction) (hunk : LineRange) :
    Extraction :=
  match enclosing root (hunk.start - 1) kinds with
  | none => { st with unmatched := st.unmatched ++ [hunk] }
  | some (l, kind) =>
    match nodeSpan l.node with
    | none => { st with unmatched := st.unmatched ++ [hunk] }
    | some span =>
      if st.targets.any fun t => t.path = path ∧ t.span = span then st
      else
        { st with
          targets := st.targets ++
            [{ id := nextId st.seq, adapter := adapter, path := path
               symbol := nodeName l source, kind := kind, span := span
               risk := symbolRisk span capped }]
          seq := st.seq + 1 }

variable [TreeSitter]

/-- The tree of a source that is small enough to be parsed. -/
def grammarTree (lang : Lang) (source : Bytes) : Option SyntaxNode :=
  if maxSourceBytes < source.length then none else TreeSitter.parse lang source

def extractWithGrammar (lang : Lang) (source : Bytes) (path : Text) (adapter : AdapterId)
    (hunks : List LineRange) (seq : Nat) : Option (List Target × Nat) :=
  (grammarTree lang source).map fun root =>
    let capped := hunks.take maxHunks
    let st := capped.foldl (extractHunk root lang.symbolKinds source path adapter capped)
      ⟨[], [], seq⟩
    let rest := fallbackHunks path adapter (st.unmatched ++ hunks.drop maxHunks) st.seq
    (st.targets ++ rest.1, rest.2)

/-- Targets of one changed file, and the next id. -/
def extractTargets (lang : Option Lang) (source : Bytes) (path : Text) (adapter : AdapterId)
    (hunks : List LineRange) (seq : Nat) : List Target × Nat :=
  if hunks.isEmpty then ([], seq)
  else
    ((lang.bind fun lang => extractWithGrammar lang source path adapter hunks seq)).getD
      (fallbackHunks path adapter hunks seq)

end Jitgen
