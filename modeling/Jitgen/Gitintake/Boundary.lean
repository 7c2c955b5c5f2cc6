import Jitgen.Framework.FileSystem
import Jitgen.Framework.PathJoin

/-!
# The boundary of a repository

A repository is opened at its root only. Its git directory, its common directory and its object store
must stand in the tree that was asked for, and nothing that is read from them may be a link. A linked
worktree is accepted where it lies inside the tree of its main repository.
-/

namespace Jitgen

open Text FileTree

inductive OpenError where
  | git (message : Text)
  | io (message : Text)
  | boundaryEscape (message : Text)
  deriving DecidableEq

def OpenError.display : OpenError → Text
  | .git m => "git error: " ++ m
  | .io m => "io error: " ++ m
  | .boundaryEscape m => "repository boundary escape: " ++ m

/-- What reading a directory yields, one item at a time. -/
inductive DirItem where
  | unreadable (e : Errno)
  | untyped (name : Text) (e : Errno)
  | entry (name : Text) (e : FsEntry)
  deriving DecidableEq

def DirItem.readable : DirItem → Bool
  | .unreadable _ => false
  | .untyped _ _ | .entry _ _ => true

/-- The files of the host, as far as it lets them be looked at. -/
structure HostFiles extends FileSystem where
  cwd : Location
  /-- Paths that may not be looked at. -/
  barred : List Text → Bool
  listing : Location → Except Errno (List DirItem)
  present : ∀ p, tree.entry p = some .dir → listing p ≠ .error .notFound
  listed : ∀ p items, listing p = .ok items → ∀ s e, tree.entry (p ++ [s]) = some e →
    .entry s e ∈ items ∨ (∃ err, .untyped s err ∈ items) ∨ ∃ err, .unreadable err ∈ items
  genuine : ∀ p items, listing p = .ok items → ∀ s e, .entry s e ∈ items →
    tree.entry (p ++ [s]) = some e

namespace HostFiles

variable (h : HostFiles)

/-- The pieces of a path that is taken from the working directory. -/
def place (path : Text) : List Text :=
  (if UnixPath.isAbsolute path then [] else h.cwd) ++ pieces path

def symlinkMetadata (ps : List Text) : Except Errno FsEntry :=
  if h.barred ps then .error .denied else h.tree.metadata false [] ps

def canonicalize (ps : List Text) : Except Errno Location :=
  if h.barred ps then .error .denied
  else
    match h.tree.metadata true [] ps, h.tree.canonicalize ps with
    | .error e, _ => .error e
    | .ok _, some p => .ok p
    | .ok _, none => .error .notFound

def exists' (ps : List Text) : Bool := (h.canonicalize ps).isOk

def readToString (ps : List Text) : Except OpenError Text :=
  if h.barred ps then .error (.io Errno.denied.display)
  else
    match h.tree.read [] ps with
    | .error e => .error (.io e.display)
    | .ok bytes =>
      match fromUtf8 bytes with
      | some s => .ok s
      | none => .error (.io "stream did not contain valid UTF-8")

def readDir (ps : List Text) : Except Errno (List DirItem) :=
  match h.canonicalize ps with
  | .error e => .error e
  | .ok p => if h.tree.entry p = some .dir then h.listing p else .error .notADirectory

end HostFiles

namespace Boundary

def maxRefsWalk : Nat := 100000

def showPath (p : Location) : Text := "/" ++ join "/" p

/-- A refusal where the host gives an error. -/
def escapeOn {α : Type} (what : Text) (r : Except Errno α) : Except OpenError α :=
  match r with
  | .ok a => .ok a
  | .error e => .error (.boundaryEscape (what ++ ": " ++ e.display))

section

variable (h : HostFiles)

/-- The git directory, unless a marker file of a linked worktree names another. -/
def commonDir (gitdir : Text) : Except OpenError Text :=
  let file := UnixPath.push gitdir "commondir"
  match h.symlinkMetadata (h.place file) with
  | .ok (.file _) =>
    match h.readToString (h.place file) with
    | .error e => .error e
    | .ok rel =>
      let p := trim rel
      .ok (if UnixPath.isAbsolute p then p else UnixPath.push gitdir p)
  | .ok _ => .error (.boundaryEscape ("worktree commondir marker " ++ file ++
      " is not a regular file"))
  | .error .notFound => .ok gitdir
  | .error e => .error (.boundaryEscape ("cannot stat commondir marker " ++ file ++ ": " ++
      e.display))

def requireUnder (root p : Location) (what : Text) : Except OpenError Unit :=
  match escapeOn ("cannot canonicalize " ++ what ++ " " ++ showPath p) (h.canonicalize p) with
  | .error e => .error e
  | .ok canon =>
    if root.isPrefixOf canon then .ok ()
    else .error (.boundaryEscape (what ++ " " ++ showPath canon ++
      " is outside the requested repo root " ++ showPath root))

/-- Neither a link nor a directory may stand where a marker is trusted. -/
def requireRegularFile (ps : List Text) (shown what : Text) : Except OpenError Unit :=
  match escapeOn ("cannot stat " ++ what ++ " " ++ shown) (h.symlinkMetadata ps) with
  | .error e => .error e
  | .ok (.file _) => .ok ()
  | .ok _ => .error (.boundaryEscape (what ++ " " ++ shown ++ " is not a regular file"))

/-- The common directory is the `.git` of a directory that the root lies in. -/
def requireLocal (gitdir common root : Location) : Except OpenError Unit :=
  if common.getLast? ≠ some ".git" then
    .error (.boundaryEscape ("worktree common dir " ++ showPath common ++
      " is not a `.git` directory; refusing (bare-repo worktrees and non-standard git dirs are " ++
      "unsupported under the hostile-input boundary)"))
  else
    let mainWorkdir := common.dropLast
    if mainWorkdir.isPrefixOf root then .ok ()
    else
      .error (.boundaryEscape ("gitdir " ++ showPath gitdir ++
        " is an out-of-root worktree gitdir whose common dir " ++ showPath common ++
        " is not within the requested repo root " ++ showPath root ++
        "'s tree; only worktrees nested under their main repository are supported (point --repo " ++
        "at the main working tree " ++ showPath mainWorkdir ++
        " for an external-location worktree)"))

def requireLayout (gitdir common root : Location) : Except OpenError Unit :=
  let worktreesDir := gitdir.dropLast
  if gitdir ≠ [] ∧ worktreesDir.getLast? = some "worktrees" ∧ worktreesDir.dropLast = common then
    .ok ()
  else
    .error (.boundaryEscape ("gitdir " ++ showPath gitdir ++
      " is outside the requested repo root " ++ showPath root ++
      " and is not a linked-worktree gitdir under its common dir " ++ showPath common))

/-- The worktree's git directory names the very `.git` file of the root. -/
def requireBinding (gitdirText : Text) (gitdir root : Location) : Except OpenError Unit :=
  match h.readToString (h.place (UnixPath.push gitdirText "gitdir")) with
  | .error e => .error e
  | .ok raw => do
    let dotGit := trim raw
    let dotGitCanon ← escapeOn ("cannot canonicalize worktree back-pointer " ++ dotGit)
      (if dotGit.isEmpty then .error .notFound else h.canonicalize (h.place dotGit))
    let expected : Location := root ++ [(".git" : Text)]
    requireRegularFile h expected (showPath expected) "worktree root .git file"
    let expectedCanon ← escapeOn ("cannot canonicalize root .git file " ++ showPath expected)
      (h.canonicalize expected)
    if dotGitCanon = expectedCanon then .ok ()
    else
      .error (.boundaryEscape ("linked worktree gitdir " ++ showPath gitdir ++
        " back-pointer names " ++ showPath dotGitCanon ++ ", not the requested root's .git " ++
        showPath expectedCanon))

def verifyLinkedWorktree (gitdirText : Text) (gitdir common root : Location) :
    Except OpenError Unit := do
  requireLocal gitdir common root
  requireLayout gitdir common root
  let commondirMarker := UnixPath.push gitdirText "commondir"
  requireRegularFile h (h.place commondirMarker) commondirMarker "worktree commondir marker"
  let gitdirMarker := UnixPath.push gitdirText "gitdir"
  requireRegularFile h (h.place gitdirMarker) gitdirMarker "worktree gitdir marker"
  requireBinding h gitdirText gitdir root

def isLink : FsEntry → Bool
  | .link _ => true
  | _ => false

def rejectIfSymlink (p : Location) (what : Text) : Except OpenError Unit :=
  match h.symlinkMetadata p with
  | .ok e =>
    if isLink e then
      .error (.boundaryEscape ("critical git path is a symlink: " ++ what ++ " (" ++
        showPath p ++ ")"))
    else .ok ()
  | .error .notFound => .ok ()
  | .error e => .error (.boundaryEscape ("cannot stat critical git path " ++ what ++ " (" ++
      showPath p ++ "): " ++ e.display))

/-- Look at an item of a directory: its name and whether it is a directory. -/
def checkItem (dir : Location) : DirItem → Except OpenError (Text × Bool)
  | .unreadable e => .error (.boundaryEscape ("cannot read entry under " ++ showPath dir ++ ": " ++
      e.display))
  | .untyped s e => .error (.boundaryEscape ("cannot stat " ++ showPath (dir ++ [s]) ++ ": " ++
      e.display))
  | .entry s e =>
    if isLink e then
      .error (.boundaryEscape ("critical git path is a symlink: " ++ showPath (dir ++ [s])))
    else .ok (s, e = .dir)

def checkItems (dir : Location) : List DirItem → Except OpenError Unit
  | [] => .ok ()
  | item :: items =>
    match checkItem dir item with
    | .error e => .error e
    | .ok _ => checkItems dir items

def rejectSymlinkedChildren (dir : Location) : Except OpenError Unit :=
  match h.readDir dir with
  | .error .notFound => .ok ()
  | .error e => .error (.boundaryEscape ("cannot read git storage dir " ++ showPath dir ++ ": " ++
      e.display))
  | .ok items => checkItems dir items

/-- Go through the items of a directory: the directories among them go on the stack, and every item
that can be read counts. -/
def pushItems (top dir : Location) (cap : Nat) :
    List DirItem → List Location → Nat → Except OpenError (List Location × Nat)
  | [], stack, seen => .ok (stack, seen)
  | item :: items, stack, seen =>
    if item.readable && cap < seen + 1 then
      .error (.boundaryEscape ("git ref tree under " ++ showPath top ++ " exceeds the " ++
        ofNat cap ++ "-entry intake cap"))
    else
      match checkItem dir item with
      | .error e => .error e
      | .ok (s, isDir) =>
        pushItems top dir cap items (if isDir then (dir ++ [s]) :: stack else stack) (seen + 1)

/-- Look at every entry below the directories of a stack. At most `cap` of them are let through, so
that `cap + 1` directories are the most that are read. -/
def walkRefs (top : Location) (cap : Nat) :
    (fuel : Nat) → List Location → Nat → Except OpenError Unit
  | _, [], _ => .ok ()
  | 0, _ :: _, _ => .error (.boundaryEscape "unreachable")
  | fuel + 1, d :: stack, seen =>
    match h.readDir d with
    | .error .notFound => walkRefs top cap fuel stack seen
    | .error e => .error (.boundaryEscape ("cannot read git ref dir " ++ showPath d ++ ": " ++
        e.display))
    | .ok items =>
      match pushItems top d cap items stack seen with
      | .error e => .error e
      | .ok (stack, seen) => walkRefs top cap fuel stack seen

def rejectSymlinksRecursive (dir : Location) (cap : Nat) : Except OpenError Unit :=
  walkRefs h dir cap (cap + 1) [dir] 0

/-- The entries of a git directory that are read by a fixed name. -/
def fixedEntries : List (List Text) :=
  [["objects"], ["objects", "pack"], ["objects", "info"], ["refs"], ["packed-refs"], ["HEAD"]]

def rejectFixed (base : Location) : List (List Text) → Except OpenError Unit
  | [] => .ok ()
  | names :: rest =>
    match rejectIfSymlink h (base ++ names) (join "/" names) with
    | .error e => .error e
    | .ok () => rejectFixed base rest

def rejectStorageSymlinks (base : Location) : Except OpenError Unit := do
  rejectFixed h base fixedEntries
  rejectSymlinkedChildren h (base ++ [("objects" : Text)])
  rejectSymlinkedChildren h (base ++ [("objects" : Text), "pack"])
  rejectSymlinksRecursive h (base ++ [("refs" : Text)]) maxRefsWalk

/-- Where an object store would name another one. -/
def alternates (common : Location) : Location := common ++ [("objects" : Text), "info", "alternates"]

def rejectAlternates (common : Location) : Except OpenError Unit :=
  match h.symlinkMetadata (alternates common) with
  | .ok _ => .error (.boundaryEscape
      "repository uses object alternates (external object store); refused")
  | .error .notFound => .ok ()
  | .error e => .error (.boundaryEscape ("cannot stat object alternates file " ++
      showPath (alternates common) ++ ": " ++ e.display))

/-- A git directory under the root needs the rest under it, too; another one has to be that of a
linked worktree. -/
def verifyPlacement (gitdirText : Text) (gitdir common root : Location) : Except OpenError Unit :=
  if root.isPrefixOf gitdir then do
    requireUnder h root common "commondir"
    let objects : Location := common ++ [("objects" : Text)]
    if h.exists' objects then requireUnder h root objects "object store"
    else .ok ()
  else verifyLinkedWorktree h gitdirText gitdir common root

def verifyRepoBoundary (gitdirText : Text) (root : Location) : Except OpenError Unit := do
  let gitdir ← escapeOn ("cannot canonicalize gitdir " ++ gitdirText)
    (h.canonicalize (h.place gitdirText))
  let commonText ← commonDir h gitdirText
  let common ← escapeOn ("cannot canonicalize commondir " ++ commonText)
    (h.canonicalize (h.place commonText))
  verifyPlacement h gitdirText gitdir common root
  rejectAlternates h common
  rejectStorageSymlinks h gitdir
  rejectStorageSymlinks h common

/-- Open the repository at a path; what libgit2 opens there is a parameter, and the result is the
git directory that it found. -/
def openRepo (openExt : Text → Except Text Text) (path : Text) : Except OpenError Text :=
  match openExt path with
  | .error e => .error (.git e)
  | .ok gitdir => do
    let root ← escapeOn "cannot canonicalize repo root"
      (if path.isEmpty then .error .notFound else h.canonicalize (h.place path))
    verifyRepoBoundary h gitdir root
    return gitdir

end

end Boundary

end Jitgen
