import Jitgen.Core.Model
import Jitgen.Framework.UnixPath

/-!
# Test-file placement

A deterministic overlay-relative path for the generated test of a target, per adapter.
-/

namespace Jitgen

open Text UnixPath

def maxFragment : Nat := 64

def fragmentChars : Nat → Bool → Text → Text
  | _, _, [] => []
  | len, lastUs, ch :: cs =>
    let c := if isAsciiAlphanumeric ch then ch else '_'
    if c = '_' ∧ lastUs then fragmentChars len true cs
    else c :: if maxFragment ≤ len + 1 then [] else fragmentChars (len + 1) (c == '_') cs

/-- Reduce to `[A-Za-z0-9_]`, with runs of `_` collapsed and the outer ones removed. -/
def sanitizeFragment (s : Text) : Text :=
  let trimmed := ((fragmentChars 0 false s).dropWhile (· == '_')).rdropWhile (· == '_')
  if trimmed.isEmpty then "unit" else trimmed

def capitalize : Text → Text
  | [] => []
  | first :: rest => charToAsciiUpper first :: rest

/-- Directory part, of plain components only. -/
def dirOf (path : Text) : Text :=
  match parent path with
  | some p => join "/" (normals p)
  | none => []

def stemOf (path : Text) : Text := sanitizeFragment ((fileStem path).getD [])

def shortId (target : Target) : Text := sanitizeFragment target.id

def tsTestExt (srcPath : Text) : Text :=
  let ext := toAsciiLower ((extension srcPath).getD [])
  if ext ∈ [("tsx" : Text), "js", "jsx", "mjs", "cjs", "mts", "cts"] then ext else "ts"

/-- What precedes the first `src/main/java` and what follows it. -/
def splitMainJava : List Text → Option (List Text × List Text)
  | a :: b :: c :: rest =>
    if a = "src" ∧ b = "main" ∧ c = "java" then some ([], rest)
    else (splitMainJava (b :: c :: rest)).map fun x => (a :: x.1, x.2)
  | _ => none

/-- Mirror `src/main/java/…` under `src/test/java/…`; otherwise a flat test directory. -/
def javaTestPath (srcPath stem id : Text) : Text :=
  let className := capitalize stem ++ "Jitgen" ++ capitalize id ++ "Test"
  let file : Text := className ++ ".java"
  let comps := normals (components srcPath)
  match if 4 ≤ comps.length then splitMainJava comps else none with
  | some (pre, rest) =>
    join "/" (pre ++ [("src" : Text), "test", "java"] ++ rest.dropLast ++ [file])
  | none => ("src/test/java/" : Text) ++ file

/-- Overlay-relative test path of a target under an adapter. -/
def testPath (target : Target) (adapterId : Text) : Text :=
  let stem := stemOf target.path
  let id := shortId target
  let dir := dirOf target.path
  let withDir := fun (name : Text) => if dir.isEmpty then name else dir ++ "/" ++ name
  if adapterId = "rust" then ("tests/jitgen_" : Text) ++ stem ++ "_" ++ id ++ ".rs"
  else if adapterId = "python" then
    withDir (("test_" : Text) ++ stem ++ "_jitgen_" ++ id ++ ".py")
  else if adapterId = "java" then javaTestPath target.path stem id
  else if adapterId = "typescript" then
    withDir (stem ++ ".jitgen." ++ id ++ ".test." ++ tsTestExt target.path)
  else ("jitgen-tests/" : Text) ++ stem ++ "_" ++ id ++ ".test.txt"

example : javaTestPath "m/src/main/java/p/A.java" "A" "t1" =
    ("m/src/test/java/p/AJitgenT1Test.java" : Text) := by decide

end Jitgen
