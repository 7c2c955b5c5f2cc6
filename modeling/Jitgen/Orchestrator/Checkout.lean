import Jitgen.Gitintake.Intake
import Jitgen.Orchestrator.Error
import Jitgen.Report.Escape

/-!
# Overlays

An overlay is a private directory filled with the files of a revision. Only this module writes to
it, and it writes regular files and creates directories; no entry is ever a symbolic link, so the
refusals of one are left out.
-/

namespace Jitgen

open Text

inductive Node where
  | file (contents : Bytes)
  | dir
  deriving DecidableEq

/-- The entry at each path below the root, given by its segments. -/
abbrev Overlay := List Text → Option Node

namespace Overlay

def empty : Overlay := fun path => if path = [] then some .dir else none

def set (o : Overlay) (path : List Text) (n : Node) : Overlay :=
  fun p => if p = path then some n else o p

@[simp] theorem set_same (o : Overlay) (path : List Text) (n : Node) :
    o.set path n path = some n := by
  simp [set]

theorem set_other (o : Overlay) {path p : List Text} (n : Node) (h : p ≠ path) :
    o.set path n p = o p := by
  simp [set, h]

end Overlay

inductive IoError where
  | notFound
  | notADirectory
  | nulByte
  deriving DecidableEq

def IoError.display : IoError → Text
  | .notFound => "No such file or directory (os error 2)"
  | .notADirectory => "Not a directory (os error 20)"
  | .nulByte => "file name contained an unexpected NUL byte"

/-- Failure of an overlay operation; one that names a place in the overlay shows it below the
overlay's root. -/
inductive OverlayError where
  | orchestrator (e : OrchestratorError)
  | atPath (what detail path : Text)
  deriving DecidableEq

def OverlayError.display (root : Text) : OverlayError → Text
  | .orchestrator e => e.display
  | .atPath what detail path =>
    (OrchestratorError.invalid what (detail ++ root ++ "/" ++ path)).display

def OverlayError.io (e : IoError) : OverlayError := .orchestrator (.io e.display)

/-- A piece of a path that resolving it does not skip. -/
def isSegment (s : Text) : Bool := decide (s ≠ [] ∧ s ≠ ".")

/-- Segments a path resolves to below the root. -/
def segments (rel : Text) : List Text := (rel.splitOn '/').filter isSegment

/-- Whether a path can only name a directory. -/
def namesDirectory (rel : Text) : Bool :=
  match (rel.splitOn '/').getLast? with
  | some s => !isSegment s
  | none => false

namespace Overlay

/-- Resolve segments one by one; every one before the last must be a directory. -/
def walk (o : Overlay) : (cur : List Text) → List Text → Except IoError Node
  | cur, [] =>
    match o cur with
    | some n => .ok n
    | none => .error .notFound
  | cur, s :: rest =>
    match o cur with
    | some .dir => walk o (cur ++ [s]) rest
    | some (.file _) => .error .notADirectory
    | none => .error .notFound

def metadata (o : Overlay) (rel : Text) : Except IoError Node :=
  if rel.contains '\x00' then .error .nulByte
  else
    match o.walk [] (segments rel) with
    | .ok (.file b) => if namesDirectory rel then .error .notADirectory else .ok (.file b)
    | r => r

end Overlay

/-- Read one file of an overlay; a missing one or a directory is `none`. -/
def readOverlayFile (o : Overlay) (rel : Text) : Except OverlayError (Option Bytes) :=
  if rejectUnsafeRel rel then .error (.orchestrator (.git (("unsafe path: " : Text) ++ rel)))
  else
    match o.metadata rel with
    | .ok (.file b) => .ok (some b)
    | .ok .dir => .ok none
    | .error .notFound => .ok none
    | .error e => .error (.io e)

/-- Create the directories of a parent path below `cur`. -/
def createDirs (rel : Text) :
    Overlay → (cur : List Text) → List UnixPath.Component → Except OverlayError Overlay
  | o, _, [] => .ok o
  | o, cur, .normal seg :: comps =>
    match o.walk [] (cur ++ [seg]) with
    | .ok .dir => createDirs rel o (cur ++ [seg]) comps
    | .ok (.file _) =>
      .error (.atPath "overlay path" "non-directory component at " (join "/" (cur ++ [seg])))
    | .error .notFound => createDirs rel (o.set (cur ++ [seg]) .dir) (cur ++ [seg]) comps
    | .error e => .error (.io e)
  | o, cur, .curDir :: comps => createDirs rel o cur comps
  | _, _, _ :: _ => .error (.orchestrator (.invalid "overlay path" rel))

def createParents (o : Overlay) (rel : Text) : Except OverlayError Overlay :=
  match UnixPath.parent rel with
  | none => .ok o
  | some comps => createDirs rel o [] comps

/-- Write below checked parents; an identical file is left alone. -/
def writeConfined (o : Overlay) (rel : Text) (bytes : Bytes) : Except OverlayError Overlay := do
  let o ← createParents o rel
  let written := o.set (segments rel) (.file bytes)
  match o.metadata rel with
  | .ok (.file b) => return if b = bytes then o else written
  | .ok .dir => .error (.atPath "overlay" "non-regular file blocks checkout at " rel)
  | .error .notFound => if namesDirectory rel then .error (.io .notFound) else return written
  | .error e => .error (.io e)

def writeFile (o : Overlay) (rel : Text) (bytes : Bytes) : Except OverlayError Overlay :=
  if rejectUnsafeRel rel then .error (.orchestrator (.git (("unsafe path: " : Text) ++ rel)))
  else writeConfined o rel bytes

structure CheckoutCaps where
  perFileBytes : Nat
  totalBytes : Nat
  materializedFiles : Nat
  treeEntries : Nat

def CheckoutCaps.production : CheckoutCaps where
  perFileBytes := 64 * 1024 * 1024
  totalBytes := 2 * 1024 * 1024 * 1024
  materializedFiles := 50000
  treeEntries := 2000000

/-- The path of an entry that is checked out. -/
def materializedPath (e : TreeEntry) : Option Text :=
  match e.object, e.path with
  | .blob _, some rel => if !isIgnored rel && !rejectUnsafeRel rel then some rel else none
  | _, _ => none

/-- Paths to materialize, in tree order; `raw` counts every entry, whatever its kind. -/
def collectBlobPaths (caps : CheckoutCaps) :
    List TreeEntry → (raw : Nat) → (paths : List Text) → Except OrchestratorError (List Text)
  | [], _, paths => .ok paths
  | e :: rest, raw, paths =>
    if caps.treeEntries < raw + 1 then
      .error (.invalid "overlay"
        (("tree walk exceeds the " : Text) ++ ofNat caps.treeEntries ++ "-entry checkout cap"))
    else
      match materializedPath e with
      | none => collectBlobPaths caps rest (raw + 1) paths
      | some rel =>
        if caps.materializedFiles < paths.length + 1 then
          .error (.invalid "overlay"
            (("tree exceeds the " : Text) ++ ofNat caps.materializedFiles ++ "-file checkout cap"))
        else collectBlobPaths caps rest (raw + 1) (paths ++ [rel])

/-- The blob at a path, under the path policy; `none` when there is none. -/
def blobAt (tree : GitTree) (rel : Text) : Except OrchestratorError (Option Bytes) :=
  if rejectUnsafeRel rel then .error (.git (("unsafe path: " : Text) ++ rel))
  else if isIgnored rel then .error (.git (("refused to read ignored/secret path: " : Text) ++ rel))
  else
    match tree.getPath rel with
    | some (.blob contents) => .ok (some contents)
    | _ => .ok none

/-- An untrusted path as one line of an error. -/
def safePathForError (rel : Text) : Text :=
  (sanitize rel 256).map fun c => if c = '\n' ∨ c = '\t' then ' ' else c

def checkoutPaths (tree : GitTree) (caps : CheckoutCaps) :
    List Text → (total : Nat) → Overlay → Except OverlayError Overlay
  | [], _, o => .ok o
  | rel :: rest, total, o =>
    match blobAt tree rel with
    | .error e => .error (.orchestrator e)
    | .ok none => checkoutPaths tree caps rest total o
    | .ok (some bytes) =>
      if caps.perFileBytes < bytes.length then
        .error (.orchestrator (.invalid "overlay" (("file is " : Text) ++ ofNat bytes.length ++
          " bytes, exceeding the " ++ ofNat caps.perFileBytes ++ "-byte per-file checkout cap (at " ++
          safePathForError rel ++ ")")))
      else if caps.totalBytes < total + bytes.length then
        .error (.orchestrator (.invalid "overlay" (("checkout total exceeds the " : Text) ++
          ofNat caps.totalBytes ++ "-byte checkout cap (at " ++ safePathForError rel ++ ")")))
      else do
        let o ← writeConfined o rel bytes
        checkoutPaths tree caps rest (total + bytes.length) o

def checkoutRevisionWithCaps (tree : GitTree) (caps : CheckoutCaps) (o : Overlay) :
    Except OverlayError Overlay :=
  match collectBlobPaths caps tree.entries 0 [] with
  | .error e => .error (.orchestrator e)
  | .ok paths => checkoutPaths tree caps paths 0 o

/-- Check out a revision under the production bounds. -/
def checkoutRevision (tree : GitTree) (o : Overlay) : Except OverlayError Overlay :=
  checkoutRevisionWithCaps tree .production o

theorem Overlay.walk_append {o : Overlay} {cur p q : List Text} {n : Node} (hq : q ≠ [])
    (h : o.walk cur (p ++ q) = .ok n) : o.walk cur p = .ok .dir := by
  induction p generalizing cur with
  | nil =>
    obtain ⟨s, rest, rfl⟩ := List.exists_cons_of_ne_nil hq
    simp only [List.nil_append, Overlay.walk] at h ⊢
    cases hcur : o cur with
    | none => simp [hcur] at h
    | some k =>
      cases k with
      | file b => simp [hcur] at h
      | dir => rfl
  | cons s p ih =>
    simp only [List.cons_append, Overlay.walk] at h ⊢
    cases hcur : o cur with
    | none => simp [hcur] at h
    | some k =>
      cases k with
      | file b => simp [hcur] at h
      | dir =>
        simp only [hcur] at h
        exact ih h

private theorem createDirs_existing {o : Overlay} {rel : Text} {cur p q : List Text} {n : Node}
    (hq : q ≠ []) (h : o.walk [] (cur ++ p ++ q) = .ok n) :
    createDirs rel o cur (p.map .normal) = .ok o := by
  induction p generalizing cur with
  | nil => rfl
  | cons s p ih =>
    have hdir : o.walk [] (cur ++ [s]) = .ok .dir := by
      refine Overlay.walk_append (q := p ++ q) (by simp [hq]) (n := n) ?_
      simpa using h
    simp only [List.map_cons, createDirs, hdir]
    exact ih (by simpa using h)

/-- Without a `..`, the components below the root are the segments of the path. -/
private theorem filterMap_segment {pieces : List Text}
    (h : UnixPath.Component.parentDir ∉ pieces.filterMap UnixPath.segment) :
    pieces.filterMap UnixPath.segment = (pieces.filter isSegment).map .normal := by
  induction pieces with
  | nil => rfl
  | cons s pieces ih =>
    have htail : UnixPath.Component.parentDir ∉ pieces.filterMap UnixPath.segment := by
      intro hmem
      obtain ⟨a, ha, hs⟩ := List.mem_filterMap.mp hmem
      exact h (List.mem_filterMap.mpr ⟨a, List.mem_cons_of_mem _ ha, hs⟩)
    by_cases hskip : s = [] ∨ s = (".": Text)
    · have hnone : UnixPath.segment s = none := if_pos hskip
      have hdrop : ¬ isSegment s = true := by
        rcases hskip with rfl | rfl <;> decide
      rw [List.filterMap_cons_none hnone, ih htail, List.filter_cons_of_neg hdrop]
    · have hup : s ≠ ".." := by
        rintro rfl
        exact h (List.mem_filterMap.mpr ⟨_, List.mem_cons_self, by decide⟩)
      have hsome : UnixPath.segment s = some (.normal s) := by
        rw [UnixPath.segment, if_neg hskip, if_neg hup]
      have hkeep : isSegment s = true := decide_eq_true (not_or.mp hskip)
      rw [List.filterMap_cons_some hsome, ih htail, List.filter_cons_of_pos hkeep, List.map_cons]

/-- Without a root or a `..`, the components of a path are its segments, maybe after a leading
dot. -/
theorem components_plain {rel : Text} (hroot : UnixPath.Component.rootDir ∉ UnixPath.components rel)
    (hup : UnixPath.Component.parentDir ∉ UnixPath.components rel) :
    ∃ lead, (lead = [] ∨ lead = [UnixPath.Component.curDir]) ∧
      UnixPath.components rel = lead ++ (segments rel).map .normal := by
  have habs : UnixPath.isAbsolute rel = false := by
    cases habs : UnixPath.isAbsolute rel with
    | false => rfl
    | true =>
      apply absurd _ hroot
      unfold UnixPath.components
      rw [if_pos habs]
      exact List.mem_cons_self
  have hbody : UnixPath.Component.parentDir ∉ (rel.splitOn '/').filterMap UnixPath.segment := by
    intro hmem
    apply hup
    unfold UnixPath.components
    simp only [habs, Bool.false_eq_true, if_false]
    split_ifs
    · exact List.mem_cons_of_mem _ hmem
    · exact hmem
  unfold UnixPath.components segments
  simp only [habs, Bool.false_eq_true, if_false, filterMap_segment hbody]
  split_ifs
  · exact ⟨_, .inr rfl, rfl⟩
  · exact ⟨_, .inl rfl, rfl⟩

theorem normals_plain {lead : List UnixPath.Component}
    (hlead : lead = [] ∨ lead = [UnixPath.Component.curDir]) (ss : List Text) :
    UnixPath.normals (lead ++ ss.map .normal) = ss := by
  have hmap : UnixPath.normals (ss.map .normal) = ss := by
    unfold UnixPath.normals
    rw [List.filterMap_map]
    exact List.filterMap_some
  unfold UnixPath.normals at hmap ⊢
  rw [List.filterMap_append, hmap]
  rcases hlead with rfl | rfl <;> rfl

theorem segments_ne_nil {rel : Text} {lead : List UnixPath.Component}
    (hlead : lead = [] ∨ lead = [UnixPath.Component.curDir])
    (hrel : UnixPath.components rel = lead ++ (segments rel).map .normal)
    (hnormal : UnixPath.normals (UnixPath.components rel) ≠ []) : segments rel ≠ [] := by
  intro hnil
  rw [hrel, hnil] at hnormal
  rcases hlead with rfl | rfl <;> exact hnormal (by decide)

theorem components_of_safe {rel : Text} (hsafe : rejectUnsafeRel rel = false) :
    ∃ lead, (lead = [] ∨ lead = [UnixPath.Component.curDir]) ∧ segments rel ≠ [] ∧
      UnixPath.components rel = lead ++ (segments rel).map .normal := by
  unfold rejectUnsafeRel at hsafe
  simp only [Bool.or_eq_false_iff, List.any_eq_false] at hsafe
  obtain ⟨⟨-, hcomps⟩, hnormal⟩ := hsafe
  obtain ⟨lead, hlead, hrel⟩ := components_plain (fun hmem => hcomps _ hmem (by decide))
    (fun hmem => hcomps _ hmem (by decide))
  exact ⟨lead, hlead, segments_ne_nil hlead hrel (by simpa using hnormal), hrel⟩

theorem parent_plain {rel : Text} {lead : List UnixPath.Component} (hne : segments rel ≠ [])
    (hrel : UnixPath.components rel = lead ++ (segments rel).map .normal) :
    UnixPath.parent rel = some (lead ++ (segments rel).dropLast.map .normal) := by
  have hsplit : segments rel = (segments rel).dropLast ++ [(segments rel).getLast hne] :=
    (List.dropLast_append_getLast hne).symm
  rw [hsplit, List.map_append] at hrel
  unfold UnixPath.parent
  rw [hrel, ← List.append_assoc]
  simp

private theorem createParents_existing {o : Overlay} {rel : Text} {n : Node}
    (hsafe : rejectUnsafeRel rel = false) (h : o.walk [] (segments rel) = .ok n) :
    createParents o rel = .ok o := by
  obtain ⟨lead, hlead, hne, hcomps⟩ := components_of_safe hsafe
  have hsplit : segments rel = (segments rel).dropLast ++ [(segments rel).getLast hne] :=
    (List.dropLast_append_getLast hne).symm
  have hexisting : createDirs rel o [] ((segments rel).dropLast.map .normal) = .ok o :=
    createDirs_existing (q := [(segments rel).getLast hne]) (by simp) (by
      rw [List.nil_append, ← hsplit]
      exact h)
  unfold createParents
  rw [parent_plain hne hcomps]
  rcases hlead with rfl | rfl
  · exact hexisting
  · exact hexisting

theorem metadata_of_read {o : Overlay} {rel : Text} {b : Bytes}
    (h : readOverlayFile o rel = .ok (some b)) : o.metadata rel = .ok (.file b) := by
  unfold readOverlayFile at h
  split at h
  · cases h
  · split at h <;> simp_all

theorem walk_of_metadata {o : Overlay} {rel : Text} {n : Node} (h : o.metadata rel = .ok n) :
    ∃ k, o.walk [] (segments rel) = .ok k := by
  unfold Overlay.metadata at h
  split at h
  · cases h
  · split at h
    · exact ⟨_, by assumption⟩
    · exact ⟨_, h⟩

theorem writeFile_of_read {o : Overlay} {rel : Text} {b : Bytes} (bytes : Bytes)
    (hread : readOverlayFile o rel = .ok (some b)) : ∃ o', writeFile o rel bytes = .ok o' := by
  cases hsafe : rejectUnsafeRel rel with
  | true => simp [readOverlayFile, hsafe] at hread
  | false =>
    have hmeta := metadata_of_read hread
    obtain ⟨n, hwalk⟩ := walk_of_metadata hmeta
    have hparents := createParents_existing hsafe hwalk
    refine ⟨if b = bytes then o else o.set (segments rel) (.file bytes), ?_⟩
    unfold writeFile writeConfined
    rw [hsafe, hparents]
    change (match o.metadata rel with
      | .ok (.file b) => _
      | .ok .dir => _
      | .error .notFound => _
      | .error e => _) = _
    rw [hmeta]
    rfl

theorem Overlay.walk_get {o : Overlay} {cur p : List Text} {n : Node} (h : o.walk cur p = .ok n) :
    o (cur ++ p) = some n := by
  induction p generalizing cur with
  | nil =>
    simp only [Overlay.walk] at h
    cases hcur : o cur with
    | none => simp [hcur] at h
    | some k => simpa [hcur] using h
  | cons s p ih =>
    simp only [Overlay.walk] at h
    cases hcur : o cur with
    | none => simp [hcur] at h
    | some k =>
      cases k with
      | file b => simp [hcur] at h
      | dir =>
        rw [hcur] at h
        simpa using ih h

private theorem createDirs_frame {rel : Text} {names cur q : List Text} {o o' : Overlay}
    (h : createDirs rel o cur (names.map .normal) = .ok o') (hq : ¬ q <+: cur ++ names) :
    o' q = o q := by
  induction names generalizing o cur with
  | nil => rw [Except.ok.inj h]
  | cons s names ih =>
    have htail : ¬ q <+: cur ++ [s] ++ names := by simpa using hq
    simp only [List.map_cons, createDirs] at h
    split at h
    · exact ih h htail
    · cases h
    · rw [ih h htail]
      apply Overlay.set_other
      intro heq
      apply hq
      rw [heq]
      exact ⟨names, by simp⟩
    · cases h

theorem createParents_frame {rel : Text} {q : List Text} {o o' : Overlay}
    {lead : List UnixPath.Component} (hlead : lead = [] ∨ lead = [UnixPath.Component.curDir])
    (hne : segments rel ≠ []) (hrel : UnixPath.components rel = lead ++ (segments rel).map .normal)
    (h : createParents o rel = .ok o') (hq : ¬ q <+: (segments rel).dropLast) : o' q = o q := by
  unfold createParents at h
  rw [parent_plain hne hrel] at h
  rcases hlead with rfl | rfl
  · exact createDirs_frame h (by simpa using hq)
  · exact createDirs_frame h (by simpa using hq)

/-- A write only touches its path and the parents of it. -/
theorem writeConfined_frame {rel : Text} {bytes : Bytes} {q : List Text} {o o' : Overlay}
    (hsafe : rejectUnsafeRel rel = false) (h : writeConfined o rel bytes = .ok o')
    (hq : ¬ q <+: segments rel) : o' q = o q := by
  obtain ⟨lead, hlead, hne, hrel⟩ := components_of_safe hsafe
  unfold writeConfined at h
  cases hparents : createParents o rel with
  | error e =>
    rw [hparents] at h
    cases h
  | ok o₁ =>
    have hframe : o₁ q = o q := createParents_frame hlead hne hrel hparents fun hpre =>
      hq (hpre.trans (List.dropLast_prefix _))
    have hset : (o₁.set (segments rel) (.file bytes)) q = o₁ q := by
      apply Overlay.set_other
      intro heq
      exact hq (heq ▸ List.prefix_rfl)
    rw [hparents] at h
    change (match o₁.metadata rel with
      | .ok (.file b) => _
      | .ok .dir => _
      | .error .notFound => _
      | .error e => _) = _ at h
    split at h
    · cases h
      split_ifs
      · exact hframe
      · exact hset.trans hframe
    · cases h
    · split_ifs at h
      cases h
      exact hset.trans hframe
    · cases h

private theorem path_of_materialized {e : TreeEntry} {rel : Text}
    (h : materializedPath e = some rel) :
    e.path = some rel := by
  unfold materializedPath at h
  split at h
  · rename_i hsome
    split_ifs at h
    rw [hsome]
    exact h
  · cases h

theorem collectBlobPaths_mem {caps : CheckoutCaps} {tree : List TreeEntry} {raw : Nat}
    {paths out : List Text} (h : collectBlobPaths caps tree raw paths = .ok out) {rel : Text}
    (hrel : rel ∈ out) : rel ∈ paths ∨ ∃ e ∈ tree, e.path = some rel := by
  induction tree generalizing raw paths with
  | nil =>
    cases h
    exact .inl hrel
  | cons e tree ih =>
    unfold collectBlobPaths at h
    split at h
    · cases h
    · split at h
      · exact (ih h).imp_right fun ⟨e', he', hp⟩ => ⟨e', List.mem_cons_of_mem _ he', hp⟩
      · rename_i r hpath
        split at h
        · cases h
        · rcases ih h with hmem | ⟨e', he', hp⟩
          · rcases List.mem_append.mp hmem with hmem | hmem
            · exact .inl hmem
            · right
              rw [List.mem_singleton.mp hmem]
              exact ⟨e, List.mem_cons_self, path_of_materialized hpath⟩
          · exact .inr ⟨e', List.mem_cons_of_mem _ he', hp⟩

private theorem checkoutPaths_frame {tree : GitTree} {caps : CheckoutCaps} {paths : List Text}
    {total : Nat}
    {q : List Text} {o o' : Overlay} (h : checkoutPaths tree caps paths total o = .ok o')
    (hq : ∀ rel ∈ paths, ¬ q <+: segments rel) : o' q = o q := by
  induction paths generalizing total o with
  | nil => rw [Except.ok.inj h]
  | cons rel paths ih =>
    have htail : ∀ r ∈ paths, ¬ q <+: segments r := fun r hr => hq r (List.mem_cons_of_mem _ hr)
    unfold checkoutPaths at h
    cases hblob : blobAt tree rel with
    | error e => simp [hblob] at h
    | ok b =>
      cases b with
      | none =>
        simp only [hblob] at h
        exact ih h htail
      | some bytes =>
        have hsafe : rejectUnsafeRel rel = false := by
          unfold blobAt at hblob
          split_ifs at hblob with hunsafe
          simpa using hunsafe
        simp only [hblob] at h
        split_ifs at h
        cases hwrite : writeConfined o rel bytes with
        | error e =>
          rw [hwrite] at h
          cases h
        | ok o₁ =>
          rw [hwrite] at h
          exact (ih h htail).trans
            (writeConfined_frame hsafe hwrite (hq rel List.mem_cons_self))

theorem checkoutRevision_frame {tree : GitTree} {q : List Text} {o o' : Overlay}
    (h : checkoutRevision tree o = .ok o')
    (hq : ∀ e ∈ tree.entries, ∀ rel, e.path = some rel → ¬ q <+: segments rel) : o' q = o q := by
  unfold checkoutRevision checkoutRevisionWithCaps at h
  cases hpaths : collectBlobPaths .production tree.entries 0 [] with
  | error e => simp [hpaths] at h
  | ok paths =>
    simp only [hpaths] at h
    apply checkoutPaths_frame h
    intro rel hrel
    rcases collectBlobPaths_mem hpaths hrel with hnil | ⟨e, he, hp⟩
    · cases hnil
    · exact hq e he rel hp

end Jitgen
