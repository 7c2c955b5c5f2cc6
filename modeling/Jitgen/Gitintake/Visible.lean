import Jitgen.Gitintake.Intake

/-!
# Intake without the ignored paths

What intake returns is a function of the tree entries and deltas left once those of ignored paths
are taken away. Only the bounds still count the others.
-/

namespace Jitgen

/-- Neither path of a change is ignored. -/
def FileChange.Visible (f : FileChange) : Prop :=
  isIgnored f.path = false ∧ ∀ op, f.oldPath = some op → isIgnored op = false

private theorem fileChange_visible {delta : DiffDelta} {f : FileChange}
    (h : fileChangeFromDelta delta = some f) : f.Visible := by
  unfold fileChangeFromDelta at h
  cases hside : delta.headSide with
  | none => simp [hside] at h
  | some path =>
    simp only [hside] at h
    split at h
    · cases h
    · rename_i hkept
      have hpath : isIgnored path = false := by
        simp only [Bool.or_eq_true, not_or, Bool.not_eq_true] at hkept
        exact hkept.1
      split at h
      · split at h
        · cases h
        · cases h
          refine ⟨hpath, fun op hop => ?_⟩
          dsimp only at hop
          split_ifs at hop with hign
          cases hop
          simpa using hign
      · cases h
        exact ⟨hpath, by simp⟩

/-- A hunk leaves the paths of the files. -/
private theorem pushHunk_visible {path : Text} {range : LineRange} {files files' : List FileChange}
    (h : pushHunk path range files = .ok files') (hvis : ∀ f ∈ files, f.Visible) :
    ∀ f ∈ files', f.Visible := by
  induction files generalizing files' with
  | nil =>
    cases h
    exact hvis
  | cons g files ih =>
    obtain ⟨hg, hfiles⟩ := List.forall_mem_cons.mp hvis
    unfold pushHunk at h
    split at h
    · split at h
      · cases h
      · cases h
        exact List.forall_mem_cons.mpr ⟨hg, hfiles⟩
    · cases hrest : pushHunk path range files with
      | error e =>
        rw [hrest] at h
        cases h
      | ok rest =>
        rw [hrest] at h
        cases h
        exact List.forall_mem_cons.mpr ⟨hg, ih hrest hfiles⟩

/-- What a hunk does: it is counted, and may be added to the first file of its path. -/
private theorem hunkCallback_ok {delta : DiffDelta} {hunk : DeltaHunk} {w w' : DiffWalk}
    (h : hunkCallback delta w hunk = .ok w') :
    w.totalHunks + 1 ≤ maxTotalHunks ∧ w'.totalHunks = w.totalHunks + 1 ∧
      (w'.files = w.files ∧ (hunk.newLines = 0 ∨ deltaHeadPath delta = none ∨
          LineRange.new hunk.newStart (hunk.newStart + hunk.newLines - 1) = none) ∨
        hunk.newLines ≠ 0 ∧ ∃ path range, deltaHeadPath delta = some path ∧
          LineRange.new hunk.newStart (hunk.newStart + hunk.newLines - 1) = some range ∧
          pushHunk path range w.files = .ok w'.files) := by
  unfold hunkCallback at h
  dsimp only at h
  split at h
  · cases h
  · rename_i hcap
    refine ⟨by omega, ?_⟩
    split at h
    · rename_i hzero
      cases h
      exact ⟨rfl, .inl ⟨rfl, .inl hzero⟩⟩
    · rename_i hlines
      split at h
      · rename_i path range hpath hrange
        cases hpush : pushHunk path range w.files with
        | error e =>
          rw [hpush] at h
          cases h
        | ok files =>
          rw [hpush] at h
          cases h
          exact ⟨rfl, .inr ⟨hlines, path, range, hpath, hrange, hpush⟩⟩
      · rename_i hnone
        cases h
        refine ⟨rfl, .inl ⟨rfl, .inr ?_⟩⟩
        cases hpath : deltaHeadPath delta with
        | none => exact .inl rfl
        | some path =>
          cases hrange : LineRange.new hunk.newStart (hunk.newStart + hunk.newLines - 1) with
          | none => exact .inr rfl
          | some range => exact absurd hrange (hnone path range hpath)

private theorem hunkCallbacks_visible {delta : DiffDelta} {hunks : List DeltaHunk} {w w' : DiffWalk}
    (h : hunkCallbacks delta hunks w = .ok w') (hvis : ∀ f ∈ w.files, f.Visible) :
    ∀ f ∈ w'.files, f.Visible := by
  induction hunks generalizing w with
  | nil =>
    cases h
    exact hvis
  | cons hunk hunks ih =>
    unfold hunkCallbacks at h
    split at h
    · cases h
    · rename_i w₁ hstep
      apply ih h
      obtain ⟨-, -, ⟨hsame, -⟩ | ⟨-, path, range, -, -, hpush⟩⟩ := hunkCallback_ok hstep
      · rw [hsame]
        exact hvis
      · exact pushHunk_visible hpush hvis

private theorem fileCallback_visible {delta : DiffDelta} {w : DiffWalk}
    (hvis : ∀ f ∈ w.files, f.Visible) :
    ∀ f ∈ (fileCallback w delta).files, f.Visible := by
  unfold fileCallback
  split
  · rename_i fc hfc
    exact List.forall_mem_append.mpr ⟨hvis, by simpa using fileChange_visible hfc⟩
  · exact hvis

private theorem walkDiff_visible {diff : Diff} {w w' : DiffWalk} (h : walkDiff diff w = .ok w')
    (hvis : ∀ f ∈ w.files, f.Visible) : ∀ f ∈ w'.files, f.Visible := by
  induction diff generalizing w with
  | nil =>
    cases h
    exact hvis
  | cons d diff ih =>
    obtain ⟨delta, hunks⟩ := d
    unfold walkDiff at h
    split at h
    · cases h
    · rename_i w₁ hstep
      exact ih h (hunkCallbacks_visible hstep (fileCallback_visible hvis))

theorem collectFileChanges_visible {diff : Diff} {files : List FileChange}
    (h : collectFileChanges diff = .ok files) : ∀ f ∈ files, f.Visible := by
  unfold collectFileChanges at h
  cases hwalk : walkDiff diff .start with
  | error e =>
    rw [hwalk] at h
    cases h
  | ok w =>
    rw [hwalk] at h
    cases h
    exact walkDiff_visible hwalk (by simp [DiffWalk.start])

theorem mapError_eq_ok {ε ε' α : Type} {x : Except ε α} {f : ε → ε'} {a : α} :
    x.mapError f = .ok a ↔ x = .ok a := by
  cases x <;> simp [Except.mapError]

private theorem resolveCommit_ok {repo : Repository} {rev : Text} {oid : Oid}
    (h : resolveCommit repo rev = .ok oid) : repo.revparse rev = some oid := by
  unfold resolveCommit at h
  cases hrev : repo.revparse rev with
  | none => simp [hrev] at h
  | some o => simpa [hrev] using h

theorem diffRevisions_ok {differ : Differ} {repo : Repository} {base head : Text} {cs : ChangeSet}
    (h : diffRevisions differ repo base head = .ok cs) :
    ∃ baseTree headTree diff, repo.revparse base = some cs.base ∧ repo.revparse head = some cs.head ∧
      repo.tree cs.base = .ok baseTree ∧ repo.tree cs.head = .ok headTree ∧
      differ.similar baseTree headTree = .ok diff ∧ collectFileChanges diff = .ok cs.files := by
  unfold diffRevisions at h
  simp only [bind_eq_ok] at h
  obtain ⟨baseOid, hbase, headOid, hhead, baseTree, hbaseTree, headTree, hheadTree, n, -, h⟩ := h
  split at h
  · obtain ⟨_, hthrow, -⟩ := bind_eq_ok.mp h
    cases hthrow
  · simp only [bind_eq_ok] at h
    obtain ⟨diff, hdiff, files, hfiles, h⟩ := h
    split at h
    · cases h
    · cases h
      exact ⟨baseTree, headTree, diff, resolveCommit_ok hbase, resolveCommit_ok hhead,
        mapError_eq_ok.mp hbaseTree, mapError_eq_ok.mp hheadTree, mapError_eq_ok.mp hdiff, hfiles⟩

/-- A delta without the name of an ignored source; an unsafe one is kept, as it drops the change. -/
def forgetSource (delta : DiffDelta) : DiffDelta :=
  match delta.status, delta.oldPath with
  | .renamed, some op =>
    if isIgnored op && !rejectUnsafeRel op then { delta with oldPath := none } else delta
  | _, _ => delta

def visibleDelta (delta : DiffDelta) : Bool := delta.headSide.all (!isIgnored ·)

/-- A diff without the deltas of ignored paths and the names of ignored sources. -/
def visibleDiff (diff : Diff) : Diff :=
  (diff.filter fun d => visibleDelta d.1).map fun d => (forgetSource d.1, d.2)

private theorem headSide_forgetSource (delta : DiffDelta) :
    (forgetSource delta).headSide = delta.headSide := by
  unfold forgetSource
  split
  · rename_i op hstatus hop
    split
    · simp [DiffDelta.headSide, hstatus]
    · rfl
  · rfl

private theorem deltaHeadPath_forgetSource (delta : DiffDelta) :
    deltaHeadPath (forgetSource delta) = deltaHeadPath delta := by
  unfold deltaHeadPath
  rw [headSide_forgetSource]

private theorem fileChange_forgetSource (delta : DiffDelta) :
    fileChangeFromDelta (forgetSource delta) = fileChangeFromDelta delta := by
  obtain ⟨status, oldPath, newPath⟩ := delta
  cases status <;> cases oldPath <;> try rfl
  rename_i op
  unfold fileChangeFromDelta
  rw [headSide_forgetSource]
  simp only [forgetSource]
  cases hign : isIgnored op <;> cases hsafe : rejectUnsafeRel op <;>
    simp [hign, hsafe, DeltaStatus.changeKind]

private theorem fileChange_of_ignored {delta : DiffDelta} (h : visibleDelta delta = false) :
    fileChangeFromDelta delta = none := by
  unfold visibleDelta at h
  unfold fileChangeFromDelta
  cases hside : delta.headSide with
  | none => rfl
  | some path =>
    have hign : isIgnored path = true := by simpa [hside] using h
    simp [hign]

private theorem deltaHeadPath_of_ignored {delta : DiffDelta} (h : visibleDelta delta = false) :
    deltaHeadPath delta = none := by
  unfold visibleDelta at h
  unfold deltaHeadPath
  cases hside : delta.headSide with
  | none => rfl
  | some path =>
    have hign : isIgnored path = true := by simpa [hside] using h
    simp [Option.filter, hign]

private theorem hunkCallbacks_skip {delta : DiffDelta} {hunks : List DeltaHunk} {w w' : DiffWalk}
    (hpath : deltaHeadPath delta = none) (h : hunkCallbacks delta hunks w = .ok w') :
    w'.files = w.files ∧ w.totalHunks ≤ w'.totalHunks := by
  induction hunks generalizing w with
  | nil =>
    cases h
    exact ⟨rfl, Nat.le_refl _⟩
  | cons hunk hunks ih =>
    unfold hunkCallbacks at h
    split at h
    · cases h
    · rename_i w₁ hstep
      obtain ⟨hfiles, htotal⟩ := ih h
      obtain ⟨-, hseen, ⟨hsame, -⟩ | ⟨-, path, -, hsome, -⟩⟩ := hunkCallback_ok hstep
      · exact ⟨hfiles.trans hsame, by omega⟩
      · rw [hpath] at hsome
        cases hsome

/-- The same files at a lower count of hunks. -/
def DiffWalk.Lighter (v w : DiffWalk) : Prop := v.files = w.files ∧ v.totalHunks ≤ w.totalHunks

private theorem hunkCallback_lighter {delta : DiffDelta} {hunk : DeltaHunk} {v w w' : DiffWalk}
    (hv : v.Lighter w) (h : hunkCallback delta w hunk = .ok w') :
    ∃ v', hunkCallback (forgetSource delta) v hunk = .ok v' ∧ v'.Lighter w' := by
  obtain ⟨hfiles, htotal⟩ := hv
  obtain ⟨hcap, hseen, hrest⟩ := hunkCallback_ok h
  have hlow : ¬ maxTotalHunks < v.totalHunks + 1 := by omega
  unfold hunkCallback
  simp only [if_neg hlow, deltaHeadPath_forgetSource]
  rcases hrest with ⟨hsame, hskip⟩ | ⟨hlines, path, range, hpath, hrange, hpush⟩
  · refine ⟨⟨v.files, v.totalHunks + 1⟩, ?_, ?_, by simp only; omega⟩
    · rcases hskip with hzero | hnone | hnone <;> simp_all
    · rw [hsame]
      exact hfiles
  · refine ⟨⟨w'.files, v.totalHunks + 1⟩, ?_, rfl, by simp only; omega⟩
    rw [if_neg hlines, hpath, hrange]
    simp only [hfiles, hpush]
    rfl

private theorem hunkCallbacks_lighter {delta : DiffDelta} {hunks : List DeltaHunk}
    {v w w' : DiffWalk} (hv : v.Lighter w) (h : hunkCallbacks delta hunks w = .ok w') :
    ∃ v', hunkCallbacks (forgetSource delta) hunks v = .ok v' ∧ v'.Lighter w' := by
  induction hunks generalizing v w with
  | nil =>
    cases h
    exact ⟨v, rfl, hv⟩
  | cons hunk hunks ih =>
    unfold hunkCallbacks at h
    split at h
    · cases h
    · rename_i w₁ hstep
      obtain ⟨v₁, hv₁, hlight⟩ := hunkCallback_lighter hv hstep
      obtain ⟨v', hv', hlight'⟩ := ih hlight h
      refine ⟨v', ?_, hlight'⟩
      unfold hunkCallbacks
      rw [hv₁]
      exact hv'

private theorem fileCallback_lighter {v w : DiffWalk} (hv : v.Lighter w) (delta : DiffDelta) :
    (fileCallback v (forgetSource delta)).Lighter (fileCallback w delta) := by
  obtain ⟨hfiles, htotal⟩ := hv
  unfold fileCallback
  rw [fileChange_forgetSource]
  split
  · exact ⟨by simp [hfiles], htotal⟩
  · exact ⟨hfiles, htotal⟩

/-- A walk that succeeds finds the same files without the ignored deltas. -/
private theorem walkDiff_visibleDiff {diff : Diff} {v w w' : DiffWalk} (hv : v.Lighter w)
    (h : walkDiff diff w = .ok w') :
    ∃ v', walkDiff (visibleDiff diff) v = .ok v' ∧ v'.Lighter w' := by
  induction diff generalizing v w with
  | nil =>
    cases h
    exact ⟨v, rfl, hv⟩
  | cons d diff ih =>
    obtain ⟨delta, hunks⟩ := d
    unfold walkDiff at h
    split at h
    · cases h
    · rename_i w₁ hstep
      cases hvis : visibleDelta delta with
      | false =>
        have hskip : fileCallback w delta = w := by
          simp [fileCallback, fileChange_of_ignored hvis]
        rw [hskip] at hstep
        obtain ⟨hfiles, htotal⟩ := hunkCallbacks_skip (deltaHeadPath_of_ignored hvis) hstep
        have hlight : v.Lighter w₁ := ⟨hv.1.trans hfiles.symm, hv.2.trans htotal⟩
        have hdrop : visibleDiff ((delta, hunks) :: diff) = visibleDiff diff := by
          simp [visibleDiff, hvis]
        rw [hdrop]
        exact ih hlight h
      | true =>
        obtain ⟨v₁, hv₁, hlight⟩ := hunkCallbacks_lighter (fileCallback_lighter hv delta) hstep
        obtain ⟨v', hv', hlight'⟩ := ih hlight h
        have hkeep : visibleDiff ((delta, hunks) :: diff) =
            (forgetSource delta, hunks) :: visibleDiff diff := by
          simp [visibleDiff, hvis]
        refine ⟨v', ?_, hlight'⟩
        rw [hkeep, walkDiff, hv₁]
        exact hv'

theorem collectFileChanges_visibleDiff {diff : Diff} {files : List FileChange}
    (h : collectFileChanges diff = .ok files) : collectFileChanges (visibleDiff diff) = .ok files := by
  unfold collectFileChanges at h
  cases hwalk : walkDiff diff .start with
  | error e =>
    rw [hwalk] at h
    cases h
  | ok w =>
    rw [hwalk] at h
    cases h
    obtain ⟨v, hv, hfiles, -⟩ := walkDiff_visibleDiff ⟨rfl, Nat.le_refl _⟩ hwalk
    unfold collectFileChanges
    rw [hv]
    exact congrArg Except.ok hfiles

def visibleEntry (e : TreeEntry) : Bool := e.path.all (!isIgnored ·)

/-- A tree without the entries of ignored paths. -/
def visibleTree (tree : GitTree) : GitTree where
  entries := tree.entries.filter visibleEntry
  getPath := fun rel => if isIgnored rel then none else tree.getPath rel

/-- The same commits, each with its visible entries only. -/
def Repository.visible (repo : Repository) : Repository where
  revparse := repo.revparse
  tree := fun oid => (repo.tree oid).map visibleTree

private theorem getPath_visibleTree {tree : GitTree} {rel : Text} (h : isIgnored rel = false) :
    (visibleTree tree).getPath rel = tree.getPath rel := by
  simp [visibleTree, h]

private theorem resolveBlobOid_visible (repo : Repository) (oid : Oid) (rel : Text) :
    resolveBlobOid repo.visible oid rel = resolveBlobOid repo oid rel := by
  unfold resolveBlobOid
  split
  · rfl
  · split
    · rfl
    · rename_i hign
      have hfind := fun tree : GitTree =>
        @getPath_visibleTree tree rel (by simpa using hign)
      cases htree : repo.tree oid with
      | error e => simp [Repository.findTree, Repository.visible, htree, Except.map]
      | ok tree =>
        simp only [Repository.findTree, Repository.visible, htree, Except.map, Except.mapError,
          bind, Except.bind, hfind]

theorem readBlobAt_visible (repo : Repository) (oid : Oid) (rel : Text) :
    readBlobAt repo.visible oid rel = readBlobAt repo oid rel := by
  unfold readBlobAt readBlobAtCapped
  rw [resolveBlobOid_visible]

theorem resolveBlobOid_of_ignored {rel : Text} (h : isIgnored rel = true) (repo : Repository)
    (oid : Oid) : resolveBlobOid repo oid rel =
      .error (if rejectUnsafeRel rel then .unsafePath rel else .ignored rel) := by
  unfold resolveBlobOid
  cases rejectUnsafeRel rel <;> simp [h]

end Jitgen
