import Jitgen.Core.Change
import Jitgen.Gitintake.Paths

/-!
# Repository intake

Diffs and file contents are read from git objects only. What libgit2 computes from two trees is a
parameter; the walk over its diff, the bounds and the path policy are the intake's own.
-/

namespace Jitgen

open Text

inductive GitObject where
  | blob (contents : Bytes)
  | tree
  | commit
  deriving DecidableEq

/-- An entry of a tree walk; the path is absent when it is not UTF-8. -/
structure TreeEntry where
  path : Option Text
  object : GitObject
  deriving DecidableEq

/-- The tree of a commit: its entries in walking order, and what looking up a path in it finds. A
hostile tree need not find its entries by their paths. -/
structure GitTree where
  entries : List TreeEntry
  getPath : Text → Option GitObject

/-- A tree whose paths lead to the first entry of their name. -/
def GitTree.ofEntries (entries : List TreeEntry) : GitTree :=
  ⟨entries, fun rel => (entries.find? (·.path = some rel)).map TreeEntry.object⟩

abbrev Oid := Text

/-- A repository: the commit a revision names, and the tree of a commit. -/
structure Repository where
  revparse : Text → Option Oid
  tree : Oid → Except Text GitTree

inductive GitError where
  | git (message : Text)
  | badRevision (rev : Text)
  | unsafePath (path : Text)
  | ignored (path : Text)
  | tooLarge (size : Nat)
  | diffTooLarge (files : Nat)
  | tooManyHunks (detail : Text)
  deriving DecidableEq

def GitError.display : GitError → Text
  | .git m => "git error: " ++ m
  | .badRevision rev => "invalid revision '" ++ rev ++ "'"
  | .unsafePath p => "unsafe path: " ++ p
  | .ignored p => "refused to read ignored/secret path: " ++ p
  | .tooLarge n => "blob exceeds size cap (" ++ ofNat n ++ " bytes)"
  | .diffTooLarge n => "diff too large (" ++ ofNat n ++ " changed files)"
  | .tooManyHunks detail => "diff too large: " ++ detail

def maxChangedFiles : Nat := 5000

def maxBlobBytes : Nat := 2 * 1024 * 1024

def maxHunksPerFile : Nat := 1000

def maxTotalHunks : Nat := 100000

inductive DeltaStatus where
  | unmodified
  | added
  | deleted
  | modified
  | renamed
  | copied
  | ignored
  | untracked
  | typechange
  | unreadable
  | conflicted
  deriving DecidableEq

/-- A changed file of a diff; a path is absent when it is not UTF-8. -/
structure DiffDelta where
  status : DeltaStatus
  oldPath : Option Text
  newPath : Option Text
  deriving DecidableEq

structure DeltaHunk where
  newStart : Nat
  newLines : Nat
  deriving DecidableEq

/-- The deltas of a diff in order, each with its hunks. -/
abbrev Diff := List (DiffDelta × List DeltaHunk)

/-- What libgit2 reports for two trees: the number of deltas, and the diff once renames have been
looked for. -/
structure Differ where
  rawDeltas : GitTree → GitTree → Except Text Nat
  similar : GitTree → GitTree → Except Text Diff

/-- The path on the side a delta is known by. -/
def DiffDelta.headSide (delta : DiffDelta) : Option Text :=
  if delta.status = .deleted then delta.oldPath else delta.newPath

def deltaHeadPath (delta : DiffDelta) : Option Text := delta.headSide.filter (!isIgnored ·)

def DeltaStatus.changeKind : DeltaStatus → ChangeKind
  | .added | .copied | .untracked => .added
  | .deleted => .deleted
  | .renamed => .renamed
  | _ => .modified

def fileChangeFromDelta (delta : DiffDelta) : Option FileChange :=
  match delta.headSide with
  | none => none
  | some path =>
    if isIgnored path || rejectUnsafeRel path then none
    else
      match delta.status, delta.oldPath with
      | .renamed, some op =>
        if rejectUnsafeRel op then none
        -- an ignored source is not named, but its destination stays a rename
        else some ⟨path, if isIgnored op then none else some op, .renamed, []⟩
      | status, _ => some ⟨path, none, status.changeKind, []⟩

structure DiffWalk where
  files : List FileChange
  totalHunks : Nat

def DiffWalk.start : DiffWalk := ⟨[], 0⟩

def fileCallback (w : DiffWalk) (delta : DiffDelta) : DiffWalk :=
  match fileChangeFromDelta delta with
  | some fc => { w with files := w.files ++ [fc] }
  | none => w

/-- Add a range to the first file of a path. -/
def pushHunk (path : Text) (range : LineRange) : List FileChange → Except GitError (List FileChange)
  | [] => .ok []
  | f :: fs =>
    if f.path = path then
      if maxHunksPerFile ≤ f.hunks.length then
        .error (.tooManyHunks (path ++ " exceeds the " ++ ofNat maxHunksPerFile ++
          "-hunk per-file intake cap"))
      else .ok ({ f with hunks := f.hunks ++ [range] } :: fs)
    else (pushHunk path range fs).map (f :: ·)

def hunkCallback (delta : DiffDelta) (w : DiffWalk) (hunk : DeltaHunk) : Except GitError DiffWalk :=
  let seen := w.totalHunks + 1
  if maxTotalHunks < seen then
    .error (.tooManyHunks ("more than " ++ ofNat maxTotalHunks ++
      " hunks across the diff exceeds the intake cap"))
  else if hunk.newLines = 0 then .ok ⟨w.files, seen⟩
  else
    match deltaHeadPath delta, LineRange.new hunk.newStart (hunk.newStart + hunk.newLines - 1) with
    | some path, some range => (pushHunk path range w.files).map (⟨·, seen⟩)
    | _, _ => .ok ⟨w.files, seen⟩

def hunkCallbacks (delta : DiffDelta) : List DeltaHunk → DiffWalk → Except GitError DiffWalk
  | [], w => .ok w
  | hunk :: hunks, w =>
    match hunkCallback delta w hunk with
    | .error e => .error e
    | .ok w => hunkCallbacks delta hunks w

def walkDiff : Diff → DiffWalk → Except GitError DiffWalk
  | [], w => .ok w
  | (delta, hunks) :: rest, w =>
    match hunkCallbacks delta hunks (fileCallback w delta) with
    | .error e => .error e
    | .ok w => walkDiff rest w

def collectFileChanges (diff : Diff) : Except GitError (List FileChange) :=
  (walkDiff diff .start).map DiffWalk.files

def resolveCommit (repo : Repository) (rev : Text) : Except GitError Oid :=
  match repo.revparse rev with
  | some oid => .ok oid
  | none => .error (.badRevision rev)

def Repository.findTree (repo : Repository) (oid : Oid) : Except GitError GitTree :=
  (repo.tree oid).mapError .git

/-- The change set between two revisions. -/
def diffRevisions (differ : Differ) (repo : Repository) (baseRev headRev : Text) :
    Except GitError ChangeSet := do
  let baseOid ← resolveCommit repo baseRev
  let headOid ← resolveCommit repo headRev
  let baseTree ← repo.findTree baseOid
  let headTree ← repo.findTree headOid
  let rawDeltas ← (differ.rawDeltas baseTree headTree).mapError GitError.git
  if maxChangedFiles < rawDeltas then throw (.diffTooLarge rawDeltas)
  let diff ← (differ.similar baseTree headTree).mapError GitError.git
  let files ← collectFileChanges diff
  if maxChangedFiles < files.length then throw (.diffTooLarge files.length)
  return ⟨baseOid, headOid, files⟩

/-- The blob at a path, under the path policy; `none` when there is none. -/
def resolveBlobOid (repo : Repository) (oid : Oid) (rel : Text) : Except GitError (Option Bytes) :=
  if rejectUnsafeRel rel then .error (.unsafePath rel)
  else if isIgnored rel then .error (.ignored rel)
  else do
    let tree ← repo.findTree oid
    match tree.getPath rel with
    | some (.blob contents) => return some contents
    | _ => return none

def blobSizeAt (repo : Repository) (oid : Oid) (rel : Text) : Except GitError (Option Nat) :=
  (resolveBlobOid repo oid rel).map (Option.map List.length)

def readBlobAtCapped (repo : Repository) (oid : Oid) (rel : Text) (maxBytes : Nat) :
    Except GitError (Option Bytes) :=
  match resolveBlobOid repo oid rel with
  | .ok (some contents) =>
    if maxBytes < contents.length then .error (.tooLarge contents.length) else .ok (some contents)
  | r => r

def readBlobAt (repo : Repository) (oid : Oid) (rel : Text) : Except GitError (Option Bytes) :=
  readBlobAtCapped repo oid rel maxBlobBytes

end Jitgen
