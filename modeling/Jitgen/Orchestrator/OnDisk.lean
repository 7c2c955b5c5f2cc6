import Jitgen.Materialize.OnDisk

/-!
# Overlay files on disk

The checkout's writer of one file over a tree in which anything may be planted below the root, and
the checkout of a commit with it.
-/

namespace Jitgen.OnDisk

open Text FileTree

def symlinkErr (p : Location) : OverlayError :=
  .orchestrator (.invalid "overlay path" (("refusing to follow symlink at " : Text) ++ placeText p))

def overlayIo (e : Errno) : OverlayError := .orchestrator (.io e.display)

def overlayErrors (root : Location) (rel : Text) : DirErrors OverlayError where
  link := fun p => symlinkErr (root ++ p)
  notDirectory := fun p =>
    .orchestrator (.invalid "overlay path"
      (("non-directory component at " : Text) ++ placeText (root ++ p)))
  io := fun _ e => overlayIo e
  notPlain := .orchestrator (.invalid "overlay path" rel)

def createOverlayParents (root : Location) (t : FileTree) (rel : Text) :
    Except OverlayError Unit × FileTree :=
  match UnixPath.parent rel with
  | none => (.ok (), t)
  | some comps => FileTree.createDirs (overlayErrors root rel) root t [] comps

/-- Write below checked parents, in place; an identical file is left alone. -/
def writeConfined (root : Location) (t : FileTree) (rel : Text) (bytes : Bytes) :
    Except OverlayError Unit × FileTree :=
  match createOverlayParents root t rel with
  | (.error e, t) => (.error e, t)
  | (.ok (), t) =>
    let put : Except OverlayError Unit × FileTree :=
      match t.write root (pieces rel) bytes with
      | .ok t' => (.ok (), t')
      | .error e => (.error (overlayIo e), t)
    match t.metadata false root (pieces rel) with
    | .ok (.link _) =>
      (.error (.orchestrator (.invalid "overlay path"
        (("refusing to follow symlink at " : Text) ++ destText root rel))), t)
    | .ok (.file found) =>
      if found.length = bytes.length then
        match t.read root (pieces rel) with
        | .error e => (.error (overlayIo e), t)
        | .ok existing => if existing = bytes then (.ok (), t) else put
      else put
    | .ok _ =>
      (.error (.orchestrator (.invalid "overlay"
        (("non-regular file blocks checkout at " : Text) ++ destText root rel))), t)
    | .error .notFound => put
    | .error e => (.error (overlayIo e), t)

def writeFile (root : Location) (rel : Text) (bytes : Bytes) (t : FileTree) :
    Except OverlayError Unit × FileTree :=
  if rejectUnsafeRel rel then
    (.error (.orchestrator (.git (("unsafe path: " : Text) ++ rel))), t)
  else writeConfined root t rel bytes

/-- The blob at a path, under the path policy; `none` when there is none. -/
def resolveBlob (c : GitTree) (rel : Text) : Except GitError (Option Bytes) :=
  if rejectUnsafeRel rel then .error (.unsafePath rel)
  else if isIgnored rel then .error (.ignored rel)
  else
    match c.getPath rel with
    | some (.blob contents) => .ok (some contents)
    | _ => .ok none

/-- The size in the header of a blob. -/
def blobSizeAt (c : GitTree) (rel : Text) : Except GitError (Option Nat) :=
  (resolveBlob c rel).map (Option.map List.length)

def readBlobAtCapped (c : GitTree) (rel : Text) (maxBytes : Nat) :
    Except GitError (Option Bytes) :=
  match resolveBlob c rel with
  | .ok (some contents) =>
    if maxBytes < contents.length then .error (.tooLarge contents.length) else .ok (some contents)
  | r => r

def u64Max : Nat := 2 ^ 64 - 1

def saturatingAdd (a b : Nat) : Nat := min (a + b) u64Max

def perFileErr (caps : CheckoutCaps) (size : Nat) (rel : Text) : OverlayError :=
  .orchestrator (.invalid "overlay" (("file is " : Text) ++ ofNat size ++
    " bytes, exceeding the " ++ ofNat caps.perFileBytes ++ "-byte per-file checkout cap (at " ++
    safePathForError rel ++ ")"))

def totalErr (caps : CheckoutCaps) (rel : Text) : OverlayError :=
  .orchestrator (.invalid "overlay" (("checkout total exceeds the " : Text) ++
    ofNat caps.totalBytes ++ "-byte checkout cap (at " ++ safePathForError rel ++ ")"))

/-- Materialize paths one by one. The files written before an error stay. -/
def checkoutPaths (root : Location) (c : GitTree) (caps : CheckoutCaps) :
    List Text → (written total : Nat) → FileTree → Except OverlayError Nat × FileTree
  | [], written, _, t => (.ok written, t)
  | rel :: rest, written, total, t =>
    match blobSizeAt c rel with
    | .error e => (.error (.orchestrator (.git e.display)), t)
    | .ok none => checkoutPaths root c caps rest written total t
    | .ok (some size) =>
      if caps.perFileBytes < size then (.error (perFileErr caps size rel), t)
      else
        let total := saturatingAdd total size
        if caps.totalBytes < total then (.error (totalErr caps rel), t)
        else
          match readBlobAtCapped c rel caps.perFileBytes with
          | .error e => (.error (.orchestrator (.git e.display)), t)
          | .ok none => checkoutPaths root c caps rest written total t
          | .ok (some bytes) =>
            match writeConfined root t rel bytes with
            | (.error e, t) => (.error e, t)
            | (.ok (), t) => checkoutPaths root c caps rest (written + 1) total t

/-- Check out a commit, with the number of files written. -/
def checkoutRevisionWithCaps (root : Location) (c : GitTree) (caps : CheckoutCaps)
    (t : FileTree) : Except OverlayError Nat × FileTree :=
  match collectBlobPaths caps c.entries 0 [] with
  | .error e => (.error (.orchestrator e), t)
  | .ok paths => checkoutPaths root c caps paths 0 0 t

end Jitgen.OnDisk
