import Jitgen.Framework.FileSystem
import Jitgen.Orchestrator.Error

/-!
# Trusted paths

The check that a trusted path lies outside the repository: by its text, and by where its longest
existing prefix leads.
-/

namespace Jitgen

open Text FileTree

/-- An absolute path: its names, with `..` among them, and whether a slash ends it. -/
structure AbsPath where
  names : List Text
  slash : Bool
  deriving DecidableEq

namespace AbsPath

def pieces (p : AbsPath) : List Text := p.names ++ if p.slash then [here] else []

/-- A path made absolute by its text; there is none for the empty path. -/
def absolute (cwd : Location) (path : Text) : Option AbsPath :=
  if path.isEmpty then none
  else
    some ⟨(if UnixPath.isAbsolute path then [] else cwd) ++ FileTree.names (FileTree.pieces path),
      path.endsWith "/" && !(FileTree.pieces path).isEmpty⟩

/-- The text of a path made absolute, with two leading slashes kept. -/
def display (cwd : Location) (path : Text) : Text :=
  match absolute cwd path with
  | none => path
  | some p =>
    (if path.startsWith "//" && !path.startsWith "///" then ("//" : Text) else "/") ++
      join "/" p.names ++ (if p.slash && !p.names.isEmpty then ("/" : Text) else [])

/-- Shorten a path, given backwards, until something is there; the names that were taken off follow
its canonical place. A path that ends in `..` is not shortened. -/
def canonicalGo (t : FileTree) : (rev : List Text) → (slash : Bool) → (tail : List Text) → List Text
  | rev, slash, tail =>
    let ancestor := (AbsPath.mk rev.reverse slash).pieces
    let base := (t.canonicalize ancestor).getD rev.reverse
    if (t.metadata true [] ancestor).isOk then base ++ tail
    else
      match rev with
      | [] => base ++ tail
      | s :: rev => if s = above then base ++ tail else canonicalGo t rev false (s :: tail)

def canonicalPrefix (t : FileTree) (p : AbsPath) : List Text :=
  match t.canonicalize p.pieces with
  | some c => c
  | none => canonicalGo t p.names.reverse p.slash []

end AbsPath

def ensureOutsideRepo (t : FileTree) (cwd : Location) (path repoRoot what : Text) :
    Except OrchestratorError Unit :=
  let inside :=
    match AbsPath.absolute cwd path, AbsPath.absolute cwd repoRoot with
    | _, none => true
    | none, some _ => false
    | some p, some repo =>
      let lexicalInside := repo.names.isPrefixOf p.names
      let canonicalInside := (repo.canonicalPrefix t).isPrefixOf (p.canonicalPrefix t)
      lexicalInside || canonicalInside
  if inside then
    .error (.invalid what (what ++ " must be OUTSIDE the target repo (resolved under " ++
      AbsPath.display cwd repoRoot ++ ")"))
  else .ok ()

end Jitgen
