import Jitgen.Core.Model

/-!
# Language identity

Source languages by file extension, and the declaration kinds of each grammar.
-/

namespace Jitgen

open Text

/-- A language with a compiled-in grammar. -/
inductive Lang where
  | rust
  | python
  | java
  | typeScript
  | tsx
  deriving DecidableEq

/-- What follows the last dot, or the whole text when there is none. -/
def fileExtension (path : Text) : Text := (path.splitOn '.').getLastD []

/-- Extensions and their languages; plain JavaScript uses the TypeScript grammar. -/
def extensionLangs : List (Text × Lang) :=
  [("rs", .rust), ("py", .python), ("pyi", .python), ("java", .java), ("ts", .typeScript),
    ("mts", .typeScript), ("cts", .typeScript), ("tsx", .tsx), ("jsx", .tsx),
    ("js", .typeScript), ("mjs", .typeScript), ("cjs", .typeScript)]

def Lang.fromPath (path : Text) : Option Lang :=
  extensionLangs.lookup (toAsciiLower (fileExtension path))

/-- Node kinds that denote a named code unit. -/
def Lang.symbolKinds : Lang → List (Text × SymbolKind)
  | .rust =>
    [("function_item", .function), ("struct_item", .class), ("enum_item", .class),
      ("trait_item", .class), ("impl_item", .class), ("mod_item", .module)]
  | .python => [("function_definition", .function), ("class_definition", .class)]
  | .java =>
    [("method_declaration", .method), ("constructor_declaration", .method),
      ("class_declaration", .class), ("interface_declaration", .class),
      ("enum_declaration", .class)]
  | .typeScript | .tsx =>
    [("function_declaration", .function), ("method_definition", .method),
      ("class_declaration", .class), ("abstract_class_declaration", .class),
      ("interface_declaration", .class), ("arrow_function", .function),
      ("function_expression", .function), ("generator_function", .function)]

example : Lang.fromPath "src/a.RS" = some .rust ∧ Lang.fromPath "README.md" = none := by decide

end Jitgen
