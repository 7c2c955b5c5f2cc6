import Jitgen.Orchestrator.Context

/-!
# Snapshots of trees that can be checked out

A checkout skips unsafe paths and copies large files. The snapshot of the same tree lists the unsafe
paths too and reads the wanted ones with the smaller bound of the parsers, so that it fails on some
trees that are checked out.
-/

namespace Jitgen

open Text

/-- A path whose contents the snapshot reads. -/
def Wanted (changes : ChangeSet) (p : Text) : Prop :=
  p ∈ changes.files.map FileChange.path ∨ basename p ∈ manifestNames

instance (changes : ChangeSet) (p : Text) : Decidable (Wanted changes p) :=
  inferInstanceAs (Decidable (_ ∨ _))

/-- Whether the contents at a path can be read for parsing. -/
def Parsable (tree : GitTree) (p : Text) : Prop :=
  rejectUnsafeRel p = false ∧
    ∀ contents, tree.getPath p = some (.blob contents) → contents.length ≤ maxBlobBytes

/-- What the snapshot of a tree needs beyond the bound on entries. -/
structure Snapshotable (tree : GitTree) (changes : ChangeSet) : Prop where
  files : (tree.entries.filterMap (listedPath false)).length ≤
    CheckoutCaps.production.materializedFiles
  wanted : ∀ p ∈ tree.entries.filterMap (listedPath false), Wanted changes p → Parsable tree p

variable {repo : Repository} {head : Oid} {tree : GitTree} {changes : ChangeSet}

private theorem ignored_of_listed {rejectUnsafe : Bool} {e : TreeEntry} {p : Text}
    (h : listedPath rejectUnsafe e = some p) : isIgnored p = false := by
  obtain ⟨path, object⟩ := e
  cases object <;> cases path <;> simp only [listedPath, reduceCtorEq] at h
  split_ifs at h with hkept
  cases h
  simp only [Bool.and_eq_true, Bool.not_eq_true'] at hkept
  exact hkept.1

private theorem listTreePaths_ok_iff {paths : List Text} (htree : repo.tree head = .ok tree) :
    listTreePaths repo head = .ok paths ↔
      tree.entries.length ≤ CheckoutCaps.production.treeEntries ∧
        paths.length ≤ CheckoutCaps.production.materializedFiles ∧
        paths = tree.entries.filterMap (listedPath false) := by
  unfold listTreePaths
  rw [htree]
  simp only
  rw [blobPaths_eq_ok_iff (Nat.zero_le _) (Nat.zero_le _), Nat.zero_add, List.nil_append]

private theorem entries_of_checkout {o o' : Overlay} (h : checkoutRevision tree o = .ok o') :
    tree.entries.length ≤ CheckoutCaps.production.treeEntries := by
  unfold checkoutRevision checkoutRevisionWithCaps at h
  rw [collectBlobPaths_eq] at h
  cases hpaths : blobPaths "overlay" CheckoutCaps.production.materializedFiles
      CheckoutCaps.production.treeEntries true tree.entries 0 [] with
  | error e =>
    rw [hpaths] at h
    cases h
  | ok paths =>
    have := ((blobPaths_eq_ok_iff (Nat.zero_le _) (Nat.zero_le _)).mp hpaths).1
    omega

private theorem readBlobAt_ok_iff {p : Text} (htree : repo.tree head = .ok tree)
    (hvisible : isIgnored p = false) :
    (∃ r, readBlobAt repo head p = .ok r) ↔ Parsable tree p := by
  unfold readBlobAt readBlobAtCapped resolveBlobOid Repository.findTree Parsable
  rw [hvisible, htree]
  cases hsafe : rejectUnsafeRel p with
  | true => simp
  | false =>
    cases hfind : tree.getPath p with
    | none => simp [hfind, Except.mapError, bind, Except.bind, pure, Except.pure]
    | some object =>
      cases object with
      | blob contents =>
        simp only [Bool.false_eq_true, if_false, Except.mapError, bind, Except.bind, hfind, pure,
          Except.pure, true_and]
        split_ifs with hlarge
        · refine ⟨nofun, fun h => absurd (h contents rfl) (Nat.not_le_of_lt hlarge)⟩
        · refine ⟨fun _ contents' h => ?_, fun _ => ⟨_, rfl⟩⟩
          cases h
          exact Nat.le_of_not_lt hlarge
      | _ => simp [hfind, Except.mapError, bind, Except.bind, pure, Except.pure]

private theorem snapshotFiles_ok_iff {changed paths : List Text} :
    (∃ files, snapshotFiles repo head changed paths = .ok files) ↔
      ∀ p ∈ paths, (p ∈ changed ∨ basename p ∈ manifestNames) →
        ∃ r, readBlobAt repo head p = .ok r := by
  induction paths with
  | nil => exact ⟨fun _ => nofun, fun _ => ⟨[], rfl⟩⟩
  | cons p paths ih =>
    rw [List.forall_mem_cons, ← ih, snapshotFiles]
    simp only [Bool.or_eq_true, List.contains_iff_mem]
    by_cases hwant : p ∈ changed ∨ basename p ∈ manifestNames
    · rw [if_pos hwant]
      cases hread : readBlobAt repo head p with
      | error e => exact ⟨nofun, fun ⟨h, _⟩ => absurd (h hwant) nofun⟩
      | ok contents =>
        have hsome : ∃ r, (Except.ok contents : Except GitError (Option Bytes)) = .ok r := ⟨_, rfl⟩
        cases contents with
        | none => exact ⟨fun h => ⟨fun _ => hsome, h⟩, fun h => h.2⟩
        | some bytes =>
          cases snapshotFiles repo head changed paths with
          | error e => exact ⟨nofun, fun ⟨_, h⟩ => absurd h nofun⟩
          | ok files => exact ⟨fun _ => ⟨fun _ => hsome, files, rfl⟩, fun _ => ⟨_, rfl⟩⟩
    · rw [if_neg hwant]
      exact ⟨fun h => ⟨fun hw => absurd hw hwant, h⟩, fun h => h.2⟩

private theorem buildSnapshot_ok_iff (htree : repo.tree head = .ok tree) :
    (∃ s, buildSnapshot repo head changes = .ok s) ↔
      tree.entries.length ≤ CheckoutCaps.production.treeEntries ∧ Snapshotable tree changes := by
  have hfiles : ∀ paths,
      (∃ files, snapshotFiles repo head (changes.files.map FileChange.path) paths = .ok files) ↔
        ∀ p ∈ paths, Wanted changes p → ∃ r, readBlobAt repo head p = .ok r :=
    fun paths => snapshotFiles_ok_iff
  have hread : ∀ p ∈ tree.entries.filterMap (listedPath false),
      ((∃ r, readBlobAt repo head p = .ok r) ↔ Parsable tree p) := by
    intro p hp
    have ⟨e, _, he⟩ := List.mem_filterMap.mp hp
    exact readBlobAt_ok_iff htree (ignored_of_listed he)
  unfold buildSnapshot
  constructor
  · intro ⟨s, h⟩
    cases hpaths : listTreePaths repo head with
    | error e =>
      rw [hpaths] at h
      cases h
    | ok paths =>
      rw [hpaths] at h
      cases hsnap : snapshotFiles repo head (changes.files.map FileChange.path) paths with
      | error e =>
        simp only [bind, Except.bind, hsnap] at h
        cases h
      | ok files =>
        have ⟨hentries, hcount, heq⟩ := (listTreePaths_ok_iff htree).mp hpaths
        rw [heq] at hcount hsnap
        refine ⟨hentries, hcount, fun p hp hwant => ?_⟩
        exact (hread p hp).mp ((hfiles _).mp ⟨files, hsnap⟩ p hp hwant)
  · intro ⟨hentries, hcount, hwanted⟩
    have hpaths := (listTreePaths_ok_iff htree).mpr ⟨hentries, hcount, rfl⟩
    have ⟨files, hsnap⟩ := (hfiles (tree.entries.filterMap (listedPath false))).mpr fun p hp hwant =>
      (hread p hp).mpr (hwanted p hp hwant)
    rw [hpaths]
    simp only [bind, Except.bind, hsnap]
    exact ⟨_, rfl⟩

/-- Of a tree that can be checked out, the snapshot is built exactly when the listing with the
unsafe paths keeps within the file cap and every wanted path is safe and small enough to be parsed. -/
theorem snapshot_agreement {o o' : Overlay} (htree : repo.tree head = .ok tree)
    (hcheckout : checkoutRevision tree o = .ok o') :
    (∃ s, buildSnapshot repo head changes = .ok s) ↔ Snapshotable tree changes := by
  rw [buildSnapshot_ok_iff htree]
  exact and_iff_right (entries_of_checkout hcheckout)

/-- A repository of one commit. -/
def oneTree (tree : GitTree) : Repository := ⟨fun _ => none, fun _ => .ok tree⟩

def manifestTree (path : Text) : GitTree := .ofEntries [⟨some path, .blob []⟩]

theorem snapshot_agreement_manifest :
    ∃ s, buildSnapshot (oneTree (manifestTree "a/Cargo.toml")) "h" ⟨"b", "h", []⟩ = .ok s := by
  have ⟨o', hcheckout⟩ : ∃ o', checkoutRevision (manifestTree "a/Cargo.toml") .empty = .ok o' :=
    ⟨_, rfl⟩
  apply (snapshot_agreement rfl hcheckout).mpr
  refine ⟨by decide, fun p hp _ => ?_⟩
  have hlisted : (manifestTree "a/Cargo.toml").entries.filterMap (listedPath false) =
      [("a/Cargo.toml" : Text)] := by
    decide
  rw [hlisted, List.mem_singleton] at hp
  rw [hp]
  refine ⟨by decide, fun contents hfind => ?_⟩
  cases hfind
  exact Nat.zero_le _

/-- A manifest in a directory that is named like a drive is skipped by the checkout, and the
snapshot fails on it. -/
theorem snapshot_agreement_drive :
    ¬ ∀ (repo : Repository) (head : Oid) (tree : GitTree) (changes : ChangeSet) (o o' : Overlay),
      repo.tree head = .ok tree → checkoutRevision tree o = .ok o' →
        ∃ s, buildSnapshot repo head changes = .ok s := by
  intro h
  have ⟨s, hs⟩ := h (oneTree (manifestTree "C:/Cargo.toml")) "h" (manifestTree "C:/Cargo.toml")
    ⟨"b", "h", []⟩ .empty .empty rfl rfl
  have herr : buildSnapshot (oneTree (manifestTree "C:/Cargo.toml")) "h" ⟨"b", "h", []⟩ =
      .error (.git (("unsafe path: " : Text) ++ "C:/Cargo.toml")) := rfl
  rw [herr] at hs
  cases hs

end Jitgen
