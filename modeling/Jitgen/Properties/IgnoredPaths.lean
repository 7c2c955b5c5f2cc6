import Jitgen.Gitintake.Visible
import Jitgen.Orchestrator.Context
import Jitgen.Orchestrator.Doubles

/-!
# Ignored paths

No ignored path is reported, read, listed or checked out. A bundle depends on ignored files only
through what libgit2 reports for the other paths: a file renamed from an ignored one stays a rename.
-/

namespace Jitgen

private theorem blobPaths_visible {what : Text} {fileCap entryCap : Nat} {rejectUnsafe : Bool}
    {tree : List TreeEntry} {raw : Nat} {paths out : List Text}
    (h : blobPaths what fileCap entryCap rejectUnsafe tree raw paths = .ok out)
    (hpaths : ∀ p ∈ paths, isIgnored p = false) : ∀ p ∈ out, isIgnored p = false := by
  induction tree generalizing raw paths with
  | nil =>
    cases h
    exact hpaths
  | cons e tree ih =>
    unfold blobPaths at h
    split at h
    · cases h
    · split at h
      · rename_i rel _ _
        split at h
        · rename_i hkept
          split at h
          · cases h
          · apply ih h
            have hrel : isIgnored rel = false := by
              simp only [Bool.and_eq_true, Bool.not_eq_true'] at hkept
              exact hkept.1
            exact List.forall_mem_append.mpr ⟨hpaths, by simpa using hrel⟩
        · exact ih h hpaths
      · exact ih h hpaths

/-- A listing that succeeds is the same without the entries of ignored paths. -/
private theorem blobPaths_filter {what : Text} {fileCap entryCap : Nat} {rejectUnsafe : Bool}
    {tree : List TreeEntry} {raw low : Nat} {paths out : List Text} (hlow : low ≤ raw)
    (h : blobPaths what fileCap entryCap rejectUnsafe tree raw paths = .ok out) :
    blobPaths what fileCap entryCap rejectUnsafe (tree.filter visibleEntry) low paths =
      .ok out := by
  induction tree generalizing raw low paths with
  | nil => exact h
  | cons e tree ih =>
    obtain ⟨path, object⟩ := e
    unfold blobPaths at h
    split at h
    · cases h
    · rename_i hcap
      have hlowCap : ¬ entryCap < low + 1 := by omega
      cases hvis : visibleEntry ⟨path, object⟩ with
      | false =>
        rw [List.filter_cons_of_neg (by simp [hvis])]
        cases path with
        | none => cases hvis
        | some rel =>
          have hign : isIgnored rel = true := by simpa [visibleEntry] using hvis
          apply ih (Nat.le_succ_of_le hlow)
          cases object <;> simpa [hign] using h
      | true =>
        rw [List.filter_cons_of_pos hvis, blobPaths, if_neg hlowCap]
        cases object <;> cases path <;> simp only at h ⊢
        case blob.some contents rel =>
          split at h
          · rename_i hkept
            rw [if_pos hkept]
            split at h
            · cases h
            · rename_i hfiles
              rw [if_neg hfiles]
              exact ih (by omega) h
          · rename_i hskip
            rw [if_neg hskip]
            exact ih (by omega) h
        all_goals exact ih (by omega) h

private theorem listTreePaths_visible {repo : Repository} {oid : Oid} {paths : List Text}
    (h : listTreePaths repo oid = .ok paths) :
    listTreePaths repo.visible oid = .ok paths ∧ ∀ p ∈ paths, isIgnored p = false := by
  unfold listTreePaths at h
  cases htree : repo.tree oid with
  | error e => simp [htree] at h
  | ok tree =>
    simp only [htree] at h
    refine ⟨?_, blobPaths_visible h (by simp)⟩
    unfold listTreePaths
    simp only [Repository.visible, htree, Except.map]
    exact blobPaths_filter (Nat.le_refl 0) h

/-- Files are read under paths of the listing. -/
private theorem snapshotFiles_mem {repo : Repository} {head : Oid} {changed paths : List Text}
    {files : List (Text × Bytes)} (h : snapshotFiles repo head changed paths = .ok files) :
    ∀ f ∈ files, f.1 ∈ paths := by
  induction paths generalizing files with
  | nil =>
    cases h
    simp
  | cons p paths ih =>
    have hlater : ∀ fs, snapshotFiles repo head changed paths = .ok fs → ∀ f ∈ fs, f.1 ∈ p :: paths :=
      fun fs hfs f hf => List.mem_cons_of_mem _ (ih hfs f hf)
    unfold snapshotFiles at h
    split at h
    · split at h
      · cases h
      · exact hlater _ h
      · cases hrest : snapshotFiles repo head changed paths with
        | error e =>
          rw [hrest] at h
          cases h
        | ok rest =>
          rw [hrest] at h
          cases h
          exact List.forall_mem_cons.mpr ⟨List.mem_cons_self, hlater rest hrest⟩
    · exact hlater _ h

private theorem snapshotFiles_visible (repo : Repository) (head : Oid) (changed paths : List Text) :
    snapshotFiles repo.visible head changed paths = snapshotFiles repo head changed paths := by
  induction paths with
  | nil => rfl
  | cons p paths ih =>
    unfold snapshotFiles
    rw [readBlobAt_visible, ih]

private theorem readBlobAt_congr {repo repo' : Repository} {oid oid' : Oid}
    (htree : repo.tree oid = repo'.tree oid') (rel : Text) :
    readBlobAt repo oid rel = readBlobAt repo' oid' rel := by
  unfold readBlobAt readBlobAtCapped resolveBlobOid Repository.findTree
  rw [htree]

private theorem buildSnapshot_congr {repo repo' : Repository} {oid oid' : Oid} {cs cs' : ChangeSet}
    (htree : repo.tree oid = repo'.tree oid') (hfiles : cs.files = cs'.files) :
    buildSnapshot repo oid cs = buildSnapshot repo' oid' cs' := by
  have hread : ∀ changed paths, snapshotFiles repo oid changed paths =
      snapshotFiles repo' oid' changed paths := by
    intro changed paths
    induction paths with
    | nil => rfl
    | cons p paths ih =>
      unfold snapshotFiles
      rw [readBlobAt_congr htree, ih]
  unfold buildSnapshot listTreePaths
  rw [htree, hfiles]
  simp only [hread]

/-- A snapshot is one of the visible entries, and shows no ignored path. -/
private theorem buildSnapshot_visible {repo : Repository} {head : Oid} {changes : ChangeSet}
    {s : RepoSnapshot} (h : buildSnapshot repo head changes = .ok s) :
    buildSnapshot repo.visible head changes = .ok s ∧
      ∀ p, isIgnored p = true → p ∉ s.paths ∧ s.read p = none := by
  unfold buildSnapshot at h
  simp only [bind_eq_ok] at h
  obtain ⟨paths, hpaths, files, hfiles, h⟩ := h
  cases h
  obtain ⟨hlist, hvisible⟩ := listTreePaths_visible hpaths
  constructor
  · unfold buildSnapshot
    simp only [hlist, snapshotFiles_visible, hfiles, bind, Except.bind]
    rfl
  · intro p hp
    have hunlisted : p ∉ (RepoSnapshot.new paths files).paths := by
      intro hmem
      have hin : p ∈ paths := by
        rcases List.mem_append.mp hmem with hmem | hmem
        · exact hmem
        · obtain ⟨f, hf, rfl⟩ := List.mem_map.mp hmem
          exact snapshotFiles_mem hfiles f hf
      exact absurd hp (by simp [hvisible p hin])
    refine ⟨hunlisted, Option.eq_none_iff_forall_ne_some.mpr fun b hb => hunlisted ?_⟩
    exact (RepoSnapshot.new paths files).read_present p b hb

private theorem createDirs_files {rel : Text} {comps : List UnixPath.Component} {cur : List Text}
    {o o' : Overlay} (h : createDirs rel o cur comps = .ok o') {q : List Text} {b : Bytes}
    (hq : o' q = some (.file b)) : o q = some (.file b) := by
  induction comps generalizing o cur with
  | nil =>
    cases h
    exact hq
  | cons comp comps ih =>
    cases comp with
    | normal seg =>
      simp only [createDirs] at h
      split at h
      · exact ih h
      · cases h
      · have hset := ih h
        by_cases heq : q = cur ++ [seg]
        · simp [heq] at hset
        · rwa [Overlay.set_other _ _ heq] at hset
      · cases h
    | curDir => exact ih h
    | rootDir => cases h
    | parentDir => cases h

/-- A write leaves one file, at its path. -/
private theorem writeConfined_files {rel : Text} {bytes : Bytes} {o o' : Overlay}
    (h : writeConfined o rel bytes = .ok o') {q : List Text} {b : Bytes}
    (hq : o' q = some (.file b)) : o q = some (.file b) ∨ q = segments rel ∧ b = bytes := by
  unfold writeConfined at h
  obtain ⟨o₁, hparents, h⟩ := bind_eq_ok.mp h
  have hfiles : o₁ q = some (.file b) → o q = some (.file b) := by
    intro hq₁
    unfold createParents at hparents
    split at hparents
    · cases hparents
      exact hq₁
    · exact createDirs_files hparents hq₁
  have hset : (o₁.set (segments rel) (.file bytes)) q = some (.file b) →
      o q = some (.file b) ∨ q = segments rel ∧ b = bytes := by
    intro hset
    by_cases heq : q = segments rel
    · right
      simpa [heq, eq_comm] using hset
    · exact .inl (hfiles (by rwa [Overlay.set_other _ _ heq] at hset))
  dsimp only at h
  split at h
  · cases h
    split at hq
    · exact .inl (hfiles hq)
    · exact hset hq
  · cases h
  · split at h
    · cases h
    · cases h
      exact hset hq
  · cases h

private theorem blobAt_some {tree : GitTree} {rel : Text} {b : Bytes}
    (h : blobAt tree rel = .ok (some b)) :
    isIgnored rel = false ∧ tree.getPath rel = some (.blob b) := by
  unfold blobAt at h
  split at h
  · cases h
  · split at h
    · cases h
    · rename_i hign
      split at h
      · rename_i contents hfound
        cases h
        exact ⟨by simpa using hign, hfound⟩
      · cases h

/-- A file a checkout leaves was there before, or is what looking up a visible path finds. -/
private theorem checkoutPaths_files {tree : GitTree} {caps : CheckoutCaps} {paths : List Text}
    {total : Nat} {o o' : Overlay} (h : checkoutPaths tree caps paths total o = .ok o')
    {q : List Text} {b : Bytes} (hq : o' q = some (.file b)) :
    o q = some (.file b) ∨ ∃ rel ∈ paths, isIgnored rel = false ∧
      tree.getPath rel = some (.blob b) ∧ segments rel = q := by
  induction paths generalizing total o with
  | nil =>
    cases h
    exact .inl hq
  | cons rel paths ih =>
    have hlater : (∃ r ∈ paths, isIgnored r = false ∧ tree.getPath r = some (.blob b) ∧
        segments r = q) → ∃ r ∈ rel :: paths, isIgnored r = false ∧
          tree.getPath r = some (.blob b) ∧ segments r = q :=
      fun ⟨r, hr, hrest⟩ => ⟨r, List.mem_cons_of_mem _ hr, hrest⟩
    unfold checkoutPaths at h
    split at h
    · cases h
    · exact (ih h).imp_right hlater
    · rename_i bytes hblob
      split at h
      · cases h
      · split at h
        · cases h
        · obtain ⟨o₁, hwrite, h⟩ := bind_eq_ok.mp h
          rcases ih h with hq₁ | hblob'
          · rcases writeConfined_files hwrite hq₁ with hold | ⟨hpath, hbytes⟩
            · exact .inl hold
            · obtain ⟨hign, hfound⟩ := blobAt_some hblob
              exact .inr ⟨rel, List.mem_cons_self, hign, hbytes ▸ hfound, hpath.symm⟩
          · exact .inr (hlater hblob')

/-- The tree has an entry of this path. -/
def GitTree.Lists (tree : GitTree) (rel : Text) : Prop := ∃ e ∈ tree.entries, e.path = some rel

private theorem checkoutRevision_files {tree : GitTree} {o o' : Overlay}
    (h : checkoutRevision tree o = .ok o') {q : List Text} {b : Bytes}
    (hq : o' q = some (.file b)) :
    o q = some (.file b) ∨ ∃ rel, isIgnored rel = false ∧ tree.Lists rel ∧
      tree.getPath rel = some (.blob b) ∧ segments rel = q := by
  unfold checkoutRevision checkoutRevisionWithCaps at h
  split at h
  · cases h
  · rename_i paths hpaths
    apply (checkoutPaths_files h hq).imp_right
    rintro ⟨rel, hmem, hign, hfound, hplace⟩
    have hlisted := (collectBlobPaths_mem hpaths hmem).resolve_left List.not_mem_nil
    exact ⟨rel, hign, hlisted, hfound, hplace⟩

/-- A path whose pieces all name an entry. -/
def PlainPath (rel : Text) : Prop := ∀ piece ∈ rel.splitOn '/', isSegment piece = true

instance (rel : Text) : Decidable (PlainPath rel) := List.decidableBAll _ _

private theorem eq_of_segments {p rel : Text} (hp : PlainPath p) (hrel : PlainPath rel)
    (h : segments rel = segments p) : rel = p := by
  have hpieces : rel.splitOn '/' = p.splitOn '/' := by
    unfold segments at h
    rwa [List.filter_eq_self.mpr hrel, List.filter_eq_self.mpr hp] at h
  have hjoin := congrArg (List.intercalate ['/']) hpieces
  rwa [List.intercalate_splitOn, List.intercalate_splitOn] at hjoin

private theorem checkoutRevision_plain {tree : GitTree} {o o' : Overlay} {p : Text}
    (hign : isIgnored p = true) (hp : PlainPath p) (htree : ∀ rel, tree.Lists rel → PlainPath rel)
    (h : checkoutRevision tree o = .ok o') {b : Bytes} (hb : o' (segments p) = some (.file b)) :
    o (segments p) = some (.file b) := by
  rcases checkoutRevision_files h hb with hold | ⟨rel, hvis, hlisted, -, hplace⟩
  · exact hold
  · have heq : rel = p := eq_of_segments hp (htree rel hlisted) hplace
    rw [heq, hign] at hvis
    cases hvis

/-- What is left of a pair of commits without the ignored paths: the entries of the head, and the
diff. -/
def visibleInput (differ : Differ) (repo : Repository) (base head : Oid) :
    Except Text (GitTree × Diff) := do
  let baseTree ← repo.tree base
  let headTree ← repo.tree head
  let diff ← differ.similar baseTree headTree
  return (visibleTree headTree, visibleDiff diff)

private theorem intake_ok {differ : Differ} {repo : Repository} {base head : Text} {cs : ChangeSet}
    {s : RepoSnapshot} (h : intake differ repo base head = .ok (cs, s)) :
    diffRevisions differ repo base head = .ok cs ∧ buildSnapshot repo cs.head cs = .ok s := by
  unfold intake at h
  cases hdiff : diffRevisions differ repo base head with
  | error e => simp [hdiff] at h
  | ok changes =>
    simp only [hdiff] at h
    cases hsnap : buildSnapshot repo changes.head changes with
    | error e =>
      rw [hsnap] at h
      cases h
    | ok snapshot =>
      rw [hsnap] at h
      cases h
      exact ⟨rfl, hsnap⟩

private theorem intake_visible {differ : Differ} {repo : Repository} {base head : Text}
    {cs : ChangeSet} {s : RepoSnapshot} (h : intake differ repo base head = .ok (cs, s)) :
    ∃ tree diff, visibleInput differ repo cs.base cs.head = .ok (tree, diff) ∧
      collectFileChanges diff = .ok cs.files ∧ repo.visible.tree cs.head = .ok tree ∧
      buildSnapshot repo.visible cs.head cs = .ok s := by
  obtain ⟨hdiff, hsnap⟩ := intake_ok h
  obtain ⟨baseTree, headTree, diff, -, -, hbase, hhead, hsimilar, hfiles⟩ := diffRevisions_ok hdiff
  refine ⟨visibleTree headTree, visibleDiff diff, ?_, collectFileChanges_visibleDiff hfiles, ?_,
    (buildSnapshot_visible hsnap).1⟩
  · simp only [visibleInput, hbase, hhead, hsimilar, bind, Except.bind]
    rfl
  · simp [Repository.visible, hhead, Except.map]

private theorem intake_determined {differ : Differ} {repo repo' : Repository}
    {base head base' head' : Text}
    {cs cs' : ChangeSet} {s s' : RepoSnapshot} (h : intake differ repo base head = .ok (cs, s))
    (h' : intake differ repo' base' head' = .ok (cs', s'))
    (hsame : visibleInput differ repo cs.base cs.head =
      visibleInput differ repo' cs'.base cs'.head) : cs.files = cs'.files ∧ s = s' := by
  obtain ⟨tree, diff, hin, hfiles, htree, hsnap⟩ := intake_visible h
  obtain ⟨tree', diff', hin', hfiles', htree', hsnap'⟩ := intake_visible h'
  rw [hin, hin'] at hsame
  cases hsame
  have heq : cs.files = cs'.files := by
    rw [hfiles] at hfiles'
    exact Except.ok.inj hfiles'
  refine ⟨heq, ?_⟩
  rw [buildSnapshot_congr (htree.trans htree'.symm) heq, hsnap'] at hsnap
  exact (Except.ok.inj hsnap).symm

section
variable [WordChars]

private theorem buildContext_congr {cs cs' : ChangeSet} (h : cs.files = cs'.files)
    (s : RepoSnapshot) (target : Target) (mode : Mode) (budget : ContextBudget) :
    buildContext s target cs mode budget = buildContext s target cs' mode budget := by
  unfold buildContext diffSummary
  rw [h]

/-- An ignored path is in no change set and no snapshot, is checked out under no path and cannot be
read; and bundles only depend on what is visible of the two commits. -/
theorem ignored_paths_excluded (differ : Differ) (p : Text) (hp : isIgnored p = true) :
    (∀ repo base head cs, diffRevisions differ repo base head = .ok cs →
      ∀ f ∈ cs.files, f.path ≠ p ∧ f.oldPath ≠ some p) ∧
    (∀ repo head changes s, buildSnapshot repo head changes = .ok s →
      p ∉ s.paths ∧ s.read p = none) ∧
    (∀ tree o o', checkoutRevision tree o = .ok o' →
      (∀ q b, o' q = some (.file b) → o q = some (.file b) ∨
        ∃ rel, rel ≠ p ∧ isIgnored rel = false ∧ tree.Lists rel ∧
          tree.getPath rel = some (.blob b) ∧ segments rel = q) ∧
      ((∀ rel, tree.Lists rel → PlainPath rel) → PlainPath p →
        ∀ b, o' (segments p) = some (.file b) → o (segments p) = some (.file b))) ∧
    (∀ repo oid maxBytes, (∃ e, readBlobAt repo oid p = .error e) ∧
      (∃ e, readBlobAtCapped repo oid p maxBytes = .error e) ∧
      ∃ e, blobSizeAt repo oid p = .error e) ∧
    ∀ repo repo' base head base' head' cs cs' s s',
      intake differ repo base head = .ok (cs, s) → intake differ repo' base' head' = .ok (cs', s') →
      visibleInput differ repo cs.base cs.head = visibleInput differ repo' cs'.base cs'.head →
      ∀ target mode budget,
        buildContext s target cs mode budget = buildContext s' target cs' mode budget := by
  refine ⟨?_, ?_, ?_, ?_, ?_⟩
  · intro repo base head cs h f hf
    obtain ⟨_, _, diff, -, -, -, -, -, hfiles⟩ := diffRevisions_ok h
    obtain ⟨hpath, hold⟩ := collectFileChanges_visible hfiles f hf
    constructor
    · rintro rfl
      rw [hp] at hpath
      cases hpath
    · intro hop
      have := hold p hop
      rw [hp] at this
      cases this
  · intro repo head changes s h
    exact (buildSnapshot_visible h).2 p hp
  · intro tree o o' h
    constructor
    · intro q b hq
      rcases checkoutRevision_files h hq with hold | ⟨rel, hvis, hlisted, hfound, hplace⟩
      · exact .inl hold
      · refine .inr ⟨rel, ?_, hvis, hlisted, hfound, hplace⟩
        rintro rfl
        rw [hp] at hvis
        cases hvis
    · intro htree hplain b hb
      exact checkoutRevision_plain hp hplain htree h hb
  · intro repo oid maxBytes
    have hread := resolveBlobOid_of_ignored hp repo oid
    unfold readBlobAt readBlobAtCapped blobSizeAt
    simp only [hread]
    exact ⟨⟨_, rfl⟩, ⟨_, rfl⟩, ⟨_, rfl⟩⟩
  · intro repo repo' base head base' head' cs cs' s s' h h' hsame target mode budget
    obtain ⟨hfiles, rfl⟩ := intake_determined h h' hsame
    exact buildContext_congr hfiles s target mode budget

end

def secretLine : Bytes := Text.toUtf8 "token=1\n"

def sourceTree : GitTree := .ofEntries [⟨some "src/a.rs", .blob secretLine⟩]

/-- The base holds the given entries and the head one source file. -/
def twoCommits (base : GitTree) : Repository where
  revparse := fun rev => some rev
  tree := fun oid => .ok (if oid = "base" then base else sourceTree)

def secretBase : Repository := twoCommits (.ofEntries [⟨some ".git-credentials", .blob secretLine⟩])

def keyBase : Repository := twoCommits (.ofEntries [⟨some "id_rsa", .blob secretLine⟩])

def emptyBase : Repository := twoCommits (.ofEntries [])

/-- The diffs of these pairs: the source file has the contents of a deleted secret, so it is an exact
rename; without the secret it is new. -/
def exactRenames : Differ where
  rawDeltas := fun base head => .ok (base.entries.length + head.entries.length)
  similar := fun base _ =>
    match base.entries with
    | [] => .ok [(⟨.added, some "src/a.rs", some "src/a.rs"⟩, [⟨1, 1⟩])]
    | e :: _ => .ok [(⟨.renamed, e.path, some "src/a.rs"⟩, [])]

theorem exists_ok {ε α : Type} {x : Except ε α} (h : x.isOk = true) : ∃ a, x = .ok a := by
  cases x with
  | error e => cases h
  | ok a => exact ⟨a, rfl⟩

/-- Which secret the source file was renamed from does not show. -/
theorem secret_sources_alike :
    ∃ cs s cs' s' o', intake exactRenames secretBase "base" "head" = .ok (cs, s) ∧
      intake exactRenames keyBase "base" "head" = .ok (cs', s') ∧
      checkoutRevision sourceTree Overlay.empty = .ok o' ∧
      (∀ f ∈ cs.files, f.path ≠ ".git-credentials" ∧ f.oldPath ≠ some ".git-credentials") ∧
      s.read ".git-credentials" = none ∧ o' (segments ".git-credentials") ≠ some (.file secretLine) ∧
      (∃ e, readBlobAt secretBase "base" ".git-credentials" = .error e) ∧
      letI := asciiWords
      buildContext s sampleTarget.target cs .catch ⟨8000, 12, 65536⟩ =
        buildContext s' sampleTarget.target cs' .catch ⟨8000, 12, 65536⟩ := by
  let _ := asciiWords
  obtain ⟨⟨cs, s⟩, h⟩ := exists_ok (show (intake exactRenames secretBase "base" "head").isOk = true by
    decide +kernel)
  obtain ⟨⟨cs', s'⟩, h'⟩ := exists_ok (show (intake exactRenames keyBase "base" "head").isOk = true by
    decide +kernel)
  obtain ⟨o', ho'⟩ := exists_ok (show (checkoutRevision sourceTree Overlay.empty).isOk = true by
    decide +kernel)
  obtain ⟨hchanges, hsnap, hcheckout, hread, hcontext⟩ :=
    ignored_paths_excluded exactRenames ".git-credentials" (by decide)
  obtain ⟨hdiff, hbuild⟩ := intake_ok h
  refine ⟨cs, s, cs', s', o', h, h', ho', hchanges _ _ _ _ hdiff, (hsnap _ _ _ _ hbuild).2, ?_,
    (hread secretBase "base" 0).1, ?_⟩
  · intro hfile
    have hplain : ∀ rel, sourceTree.Lists rel → PlainPath rel := by
      rintro rel ⟨e, he, hrel⟩
      rw [List.mem_singleton.mp he] at hrel
      cases hrel
      decide
    have hbefore := (hcheckout _ _ _ ho').2 hplain (by decide) _ hfile
    revert hbefore
    decide +kernel
  · apply hcontext _ _ _ _ _ _ _ _ _ _ h h'
    obtain ⟨hd, -⟩ := intake_ok h'
    obtain ⟨_, _, _, hb, hh, -⟩ := diffRevisions_ok hdiff
    obtain ⟨_, _, _, hb', hh', -⟩ := diffRevisions_ok hd
    rw [← Option.some.inj hb, ← Option.some.inj hh, ← Option.some.inj hb', ← Option.some.inj hh']
    have hdiffs : visibleDiff [(⟨.renamed, some ".git-credentials", some "src/a.rs"⟩, [])] =
        visibleDiff [(⟨.renamed, some "id_rsa", some "src/a.rs"⟩, [])] := by decide +kernel
    exact congrArg (fun d => (.ok (visibleTree sourceTree, d) : Except Text (GitTree × Diff))) hdiffs

/-- The bundle of a catch run on an intake. -/
def catchBundle (repo : Repository) : Except OrchestratorError ContextBundle :=
  letI := asciiWords
  (intake exactRenames repo "base" "head").map fun r =>
    buildContext r.2 sampleTarget.target r.1 .catch ⟨8000, 12, 65536⟩

private theorem visibleTree_secret :
    visibleTree (.ofEntries [⟨some ".git-credentials", .blob secretLine⟩]) =
    visibleTree (.ofEntries []) := by
  have hentries : [(⟨some ".git-credentials", .blob secretLine⟩ : TreeEntry)].filter visibleEntry =
      [] := by decide
  unfold visibleTree GitTree.ofEntries
  rw [hentries]
  congr 1
  funext rel
  by_cases hrel : rel = ".git-credentials"
  · rw [hrel]
    rfl
  · have hother : decide (some (".git-credentials" : Text) = some rel) = false :=
      decide_eq_false fun h => hrel (Option.some.inj h).symm
    dsimp only
    rw [List.find?_cons]
    dsimp only
    rw [hother]

/-- Whether the source file was renamed from a secret does show: the commits differ in an ignored
file only, and their bundles differ. -/
theorem renamed_secret_shows :
    (secretBase.tree "base").map visibleTree = (emptyBase.tree "base").map visibleTree ∧
    secretBase.tree "head" = emptyBase.tree "head" ∧
    (catchBundle secretBase).isOk ∧ (catchBundle emptyBase).isOk ∧
    catchBundle secretBase ≠ catchBundle emptyBase := by
  have hbundles : (catchBundle secretBase).isOk ∧ (catchBundle emptyBase).isOk ∧
      catchBundle secretBase ≠ catchBundle emptyBase := by decide +kernel
  exact ⟨congrArg Except.ok visibleTree_secret, rfl, hbundles⟩

end Jitgen
