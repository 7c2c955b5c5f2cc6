import Jitgen.Framework.ConfinedDirs
import Jitgen.Materialize.Install

/-!
# Materialization on disk

The writer of a candidate over a tree in which anything may be planted below the overlay's root: links,
files in the place of directories, and permissions that refuse a change. The root is canonical and
given by its place.
-/

namespace Jitgen.OnDisk

open Text FileTree

/-- The tree, and the number of temporary files named so far. -/
structure Disk where
  tree : FileTree
  counter : Nat

inductive MaterializeFailure where
  | symlinkComponent (path : Text)
  | other (e : MaterializeError)
  deriving DecidableEq

def MaterializeFailure.display : MaterializeFailure → Text
  | .symlinkComponent path =>
    ("path component is a symlink, refusing to traverse: " : Text) ++ debugQuoted path
  | .other e => e.display

def MaterializeFailure.io (path : Text) (e : Errno) : MaterializeFailure :=
  .other (.io path e.display)

/-- The absolute path of a place. -/
def placeText (p : Location) : Text := '/' :: join "/" p

/-- The absolute path of a relative one below the root. -/
def destText (root : Location) (rel : Text) : Text := UnixPath.push (placeText root) rel

def materializeErrors (root : Location) (rel : Text) : DirErrors MaterializeFailure where
  link := fun p => .symlinkComponent (placeText (root ++ p))
  notDirectory := fun p =>
    .other (.io (placeText (root ++ p)) "non-directory component in destination path")
  io := fun p e => .io (placeText (root ++ p)) e
  notPlain := .other (.unsafePath rel)

def createParents (root : Location) (t : FileTree) (rel : Text) :
    Except MaterializeFailure Unit × FileTree :=
  match UnixPath.parent rel with
  | none => (.ok (), t)
  | some comps => FileTree.createDirs (materializeErrors root rel) root t [] comps

def maxTempAttempts : Nat := 128

/-- A hidden sibling of the destination, named by the process and a counter. -/
def tempSibling (pid rel : Text) (n : Nat) : List Text :=
  let name := (UnixPath.fileName rel).getD "jitgen"
  (UnixPath.normals (UnixPath.components rel)).dropLast ++
    [("." : Text) ++ name ++ ".jitgen-tmp." ++ pid ++ "." ++ ofNat n]

/-- Write the bytes to a new sibling of the destination and give its path. -/
def writeUniqueTemp (pid : Text) (root : Location) (rel : Text) (bytes : Bytes) :
    Nat → Disk → Except MaterializeFailure (List Text) × Disk
  | 0, d =>
    (.error (.other (.io (destText root rel) "could not allocate a unique temp file name")), d)
  | attempts + 1, d =>
    let tmp := tempSibling pid rel d.counter
    let path := placeText (root ++ tmp)
    let counter := d.counter + 1
    match d.tree.createNew root tmp with
    | .ok (handle, t) =>
      match t.writeAll handle bytes with
      | .ok t => (.ok tmp, ⟨t, counter⟩)
      | .error e => (.error (.io path e), ⟨(t.removeFile root tmp).toOption.getD t, counter⟩)
    | .error .alreadyExists => writeUniqueTemp pid root rel bytes attempts ⟨d.tree, counter⟩
    | .error e => (.error (.io path e), ⟨d.tree, counter⟩)

/-- Contents of a regular file, which is looked at once more before it is read. -/
def readRegular (root : Location) (t : FileTree) (rel : Text) : Except MaterializeFailure Bytes :=
  match t.metadata false root (pieces rel) with
  | .ok (.link _) => .error (.symlinkComponent (destText root rel))
  | .ok (.file _) => (t.read root (pieces rel)).mapError (.io (destText root rel))
  | .ok _ => .error (.other (.notRegularFile (destText root rel)))
  | .error e => .error (.io (destText root rel) e)

variable [Digest]

/-- Put the bytes at the destination by way of a temporary sibling; identical ones may be there. -/
def install (pid : Text) (root : Location) (rel : Text) (bytes : Bytes) (d : Disk) :
    Except MaterializeFailure Unit × Disk :=
  match d.tree.metadata false root (pieces rel) with
  | .ok (.link _) => (.error (.symlinkComponent (destText root rel)), d)
  | .ok (.file found) =>
    if found.length ≠ bytes.length then (.error (.other (.conflict rel)), d)
    else
      match readRegular root d.tree rel with
      | .error e => (.error e, d)
      | .ok existing =>
        if sha256Hex existing ≠ sha256Hex bytes then (.error (.other (.conflict rel)), d)
        else (.ok (), d)
  | .ok _ => (.error (.other (.notRegularFile (destText root rel))), d)
  | .error .notFound =>
    match writeUniqueTemp pid root rel bytes maxTempAttempts d with
    | (.error e, d) => (.error e, d)
    | (.ok tmp, d) =>
      match d.tree.rename root tmp (pieces rel) with
      | .ok t => (.ok (), { d with tree := t })
      | .error e =>
        (.error (.io (destText root rel) e),
          { d with tree := (d.tree.removeFile root tmp).toOption.getD d.tree })
  | .error e => (.error (.io (destText root rel) e), d)

/-- Write a candidate below the root. -/
def materialize (pid : Text) (root : Location) (candidate : TestCandidate) (d : Disk) :
    Except MaterializeFailure MaterializedTest × Disk :=
  let rel := candidate.relPath
  let bytes := toUtf8 candidate.source
  if Materialize.maxSourceBytes < utf8Len candidate.source then
    (.error (.other (.tooLarge (("candidate source " : Text) ++ ofNat (utf8Len candidate.source) ++
      " bytes > " ++ ofNat Materialize.maxSourceBytes))), d)
  else
    match Materialize.validateRel rel with
    | .error e => (.error (.other e), d)
    | .ok () =>
      match createParents root d.tree rel with
      | (.error e, t) => (.error e, { d with tree := t })
      | (.ok (), t) =>
        match install pid root rel bytes { d with tree := t } with
        | (.error e, d) => (.error e, d)
        | (.ok (), d) => (.ok ⟨candidate, destText root rel, sha256Hex bytes⟩, d)

end Jitgen.OnDisk
