import Jitgen.Gitintake.Boundary

/-!
# What an opened repository may read

Where a repository is opened, its references and objects are read from the tree that was asked for,
or from that of the main repository it is nested in; no link leads elsewhere.
-/

namespace Jitgen

open Text FileTree

namespace Boundary

variable {h : HostFiles}

private theorem entry_of_canonicalize {ps : List Text} {p : Location}
    (hp : h.canonicalize ps = .ok p) :
    h.tree.canonicalize ps = some p := by
  unfold HostFiles.canonicalize at hp
  split at hp
  · cases hp
  · split at hp
    · cases hp
    · rename_i q hq
      cases hp
      exact hq
    · cases hp

/-- The real entry at a name below a directory is seen as it is. -/
private theorem symlinkMetadata_below {p : Location} {s : Text} {e : FsEntry}
    (hentry : h.tree.entry (p ++ [s]) = some e) {r : Except Errno FsEntry}
    (hr : h.symlinkMetadata (p ++ [s]) = r) : r = .ok e ∨ r = .error .denied := by
  have hdir : h.tree.entry p = some .dir := (h.below p s e hentry).1
  have hnames := (h.toFileSystem.real_of_entry hentry).2
  have hplain : PlainNames (p ++ [s]) := h.toFileSystem.plainNames hentry
  have hs : s ≠ here ∧ s ≠ above := hplain s (by simp)
  have hnul : hasNul (p ++ [s]) = false := by
    unfold hasNul
    rw [List.any_eq_false]
    intro x hx
    simpa using (hnames x hx).no_nul
  have hp : PlainNames p := hplain.left
  have hreal : h.tree.Real [] (names p) := by
    rw [names_plain hp]
    exact h.toFileSystem.real_of_dir hdir
  have hmeta := metadata_name hnul (above_notMem hp) hreal hs.1 hs.2
  rw [names_plain hp, List.nil_append, hentry] at hmeta
  unfold HostFiles.symlinkMetadata at hr
  split at hr
  · exact .inr hr.symm
  · rw [hmeta] at hr
    exact .inl hr.symm

private theorem not_link_of_reject {p : Location} {s : Text} {what : Text}
    (hok : rejectIfSymlink h (p ++ [s]) what = .ok ()) (target : Text) :
    h.tree.entry (p ++ [s]) ≠ some (.link target) := by
  intro hlink
  unfold rejectIfSymlink at hok
  rcases symlinkMetadata_below hlink rfl with hseen | hdenied
  · rw [hseen] at hok
    cases hok
  · rw [hdenied] at hok
    cases hok

private theorem alternates_absent {common : Location} (hok : rejectAlternates h common = .ok ()) :
    h.tree.entry (alternates common) = none := by
  by_contra hsome
  obtain ⟨e, he⟩ := Option.ne_none_iff_exists'.mp hsome
  have hsplit : alternates common = (common ++ [("objects" : Text), "info"]) ++
      [("alternates" : Text)] := by
    simp [alternates]
  unfold rejectAlternates at hok
  rw [hsplit] at he hok
  rcases symlinkMetadata_below he rfl with hseen | hdenied
  · rw [hseen] at hok
    cases hok
  · rw [hdenied] at hok
    cases hok

/-- A directory that holds something is listed, or its listing fails loudly. -/
private theorem readDir_of_dir {d : Location} (hdir : h.tree.entry d = some .dir) :
    h.readDir d = h.listing d ∨ h.readDir d = .error .denied := by
  have hplain : PlainNames d := h.toFileSystem.plainNames hdir
  have hnul : hasNul d = false := by
    unfold hasNul
    rw [List.any_eq_false]
    intro x hx
    simpa using ((h.toFileSystem.real_of_entry hdir).2 x hx).no_nul
  have hreal : h.tree.Real [] (names d) := by
    rw [names_plain hplain]
    exact h.toFileSystem.real_of_dir hdir
  have hwalk : (h.tree.walk true [] d).result = .ok d := by
    have hw := walk_real true (above_notMem hplain) hreal
    rwa [names_plain hplain, List.nil_append] at hw
  unfold HostFiles.readDir HostFiles.canonicalize FileTree.metadata FileTree.canonicalize
  split
  · rename_i e he
    split at he
    · cases he
      exact .inr rfl
    · rw [hnul, hwalk] at he
      simp [hdir] at he
  · rename_i p hp
    split at hp
    · cases hp
    · rw [hnul, hwalk] at hp
      simp only [Bool.false_eq_true, if_false, hdir, Option.isSome_some, if_true] at hp
      cases hp
      rw [if_pos hdir]
      exact .inl rfl

/-- What stands in a directory stands among its items, unless one of them cannot be read. -/
private theorem checkItem_of_entry {d : Location} {items : List DirItem}
    (hd : h.readDir d = .ok items) (hitems : ∀ item ∈ items, ∃ x, checkItem d item = .ok x)
    {s : Text} {e : FsEntry} (hentry : h.tree.entry (d ++ [s]) = some e) :
    .entry s e ∈ items ∧ checkItem d (.entry s e) = .ok (s, e = .dir) ∧
      ∀ target, e ≠ .link target := by
  have hdir : h.tree.entry d = some .dir := (h.below d s e hentry).1
  have hlisting : h.listing d = .ok items := by
    rcases readDir_of_dir hdir with heq | hdenied
    · rw [← heq, hd]
    · rw [hdenied] at hd
      cases hd
  have hmem : .entry s e ∈ items := by
    rcases h.listed d items hlisting s e hentry with hmem | ⟨err, hmem⟩ | ⟨err, hmem⟩
    · exact hmem
    · obtain ⟨x, hx⟩ := hitems _ hmem
      cases hx
    · obtain ⟨x, hx⟩ := hitems _ hmem
      cases hx
  obtain ⟨x, hx⟩ := hitems _ hmem
  cases e with
  | link target => cases hx
  | dir => exact ⟨hmem, rfl, by simp⟩
  | file b => exact ⟨hmem, by simp [checkItem, isLink], by simp⟩
  | special => exact ⟨hmem, by simp [checkItem, isLink], by simp⟩

private theorem checkItems_ok {d : Location} {items : List DirItem}
    (hok : checkItems d items = .ok ()) :
    ∀ item ∈ items, ∃ x, checkItem d item = .ok x := by
  induction items with
  | nil =>
    intro item hitem
    cases hitem
  | cons first items ih =>
    unfold checkItems at hok
    split at hok
    · cases hok
    · rename_i x hx
      exact List.forall_mem_cons.mpr ⟨⟨x, hx⟩, ih hok⟩

private theorem not_link_of_children {d : Location} (hok : rejectSymlinkedChildren h d = .ok ())
    (s target : Text) : h.tree.entry (d ++ [s]) ≠ some (.link target) := by
  intro hlink
  have hdir : h.tree.entry d = some .dir := (h.below d s _ hlink).1
  unfold rejectSymlinkedChildren at hok
  split at hok
  · rename_i hnone
    rcases readDir_of_dir hdir with heq | hdenied
    · exact absurd (heq ▸ hnone) (h.present d hdir)
    · rw [hdenied] at hnone
      cases hnone
  · cases hok
  · rename_i items hitems
    exact (checkItem_of_entry hitems (checkItems_ok hok) hlink).2.2 target rfl

/-- No link stands below a directory. -/
def Clean (h : HostFiles) (d : Location) : Prop :=
  ∀ q target, q ≠ [] → h.tree.entry (d ++ q) ≠ some (.link target)

/-- The stack keeps what is on it and gets the directories among the items. -/
private theorem pushItems_ok {top d : Location} {cap seen seen' : Nat} {items : List DirItem}
    {stack stack' : List Location}
    (hok : pushItems top d cap items stack seen = .ok (stack', seen')) :
    (∀ item ∈ items, ∃ x, checkItem d item = .ok x) ∧ (∀ d' ∈ stack, d' ∈ stack') ∧
      ∀ s, .entry s .dir ∈ items → d ++ [s] ∈ stack' := by
  induction items generalizing stack seen with
  | nil =>
    cases hok
    exact ⟨by simp, fun _ h => h, by simp⟩
  | cons item items ih =>
    unfold pushItems at hok
    split at hok
    · cases hok
    · split at hok
      · cases hok
      · rename_i name isDir hitem
        obtain ⟨hitems, hkept, hdirs⟩ := ih hok
        refine ⟨List.forall_mem_cons.mpr ⟨⟨_, hitem⟩, hitems⟩, fun d' hd' => hkept d' ?_, ?_⟩
        · split
          · exact List.mem_cons_of_mem _ hd'
          · exact hd'
        · intro s hs
          rcases List.mem_cons.mp hs with rfl | hs
          · cases hitem
            exact hkept _ (by simp)
          · exact hdirs s hs

private theorem walkRefs_clean {top : Location} {cap fuel seen : Nat} {stack : List Location}
    (hok : walkRefs h top cap fuel stack seen = .ok ()) : ∀ d ∈ stack, Clean h d := by
  induction fuel generalizing stack seen with
  | zero =>
    cases stack with
    | nil =>
      intro d hd
      cases hd
    | cons d stack => cases hok
  | succ fuel ih =>
    cases stack with
    | nil =>
      intro d hd
      cases hd
    | cons d stack =>
      unfold walkRefs at hok
      split at hok
      · rename_i hnone
        apply List.forall_mem_cons.mpr ⟨_, ih hok⟩
        intro q target hq hlink
        obtain ⟨s, q, rfl⟩ := List.exists_cons_of_ne_nil hq
        have hdir : h.tree.entry d = some .dir := by
          apply (h.toFileSystem.real_of_entry hlink).1 d (List.prefix_append d _)
          simp
        rcases readDir_of_dir hdir with heq | hdenied
        · exact h.present d hdir (heq ▸ hnone)
        · rw [hdenied] at hnone
          cases hnone
      · cases hok
      · rename_i items hitems
        split at hok
        · cases hok
        · rename_i stack' seen' hpush
          obtain ⟨hchecked, hkept, hdirs⟩ := pushItems_ok hpush
          have hclean := ih hok
          apply List.forall_mem_cons.mpr ⟨_, fun d' hd' => hclean d' (hkept d' hd')⟩
          intro q target hq hlink
          obtain ⟨s, q, rfl⟩ := List.exists_cons_of_ne_nil hq
          cases q with
          | nil => exact (checkItem_of_entry hitems hchecked hlink).2.2 target rfl
          | cons s' q =>
            have hnext : h.tree.entry (d ++ [s]) = some .dir := by
              apply (h.toFileSystem.real_of_entry hlink).1 (d ++ [s])
              · exact ⟨s' :: q, by simp⟩
              · simp
            have hmem := (checkItem_of_entry hitems hchecked hnext).1
            apply hclean _ (hdirs s hmem) (s' :: q) target (by simp)
            rwa [List.append_assoc]

/-- What is read of a git directory: its references and the objects of its store. -/
inductive StoragePath : List Text → Prop
  | head : StoragePath ["HEAD"]
  | packedRefs : StoragePath ["packed-refs"]
  | ref (q : List Text) : StoragePath ("refs" :: q)
  | object (dir name : Text) : StoragePath ["objects", dir, name]

private theorem rejectFixed_ok {base : Location} {entries : List (List Text)}
    (hok : rejectFixed h base entries = .ok ()) :
    ∀ names ∈ entries, rejectIfSymlink h (base ++ names) (join "/" names) = .ok () := by
  induction entries with
  | nil =>
    intro names hnames
    cases hnames
  | cons names entries ih =>
    unfold rejectFixed at hok
    split at hok
    · cases hok
    · rename_i hfirst
      exact List.forall_mem_cons.mpr ⟨hfirst, ih hok⟩

/-- What the checks on the storage come to. -/
structure NoLinks (h : HostFiles) (base : Location) : Prop where
  fixed : ∀ names ∈ fixedEntries, rejectIfSymlink h (base ++ names) (join "/" names) = .ok ()
  objects : rejectSymlinkedChildren h (base ++ [("objects" : Text)]) = .ok ()
  packs : rejectSymlinkedChildren h (base ++ [("objects" : Text), "pack"]) = .ok ()
  refs : rejectSymlinksRecursive h (base ++ [("refs" : Text)]) maxRefsWalk = .ok ()

private theorem noLinks_of_reject {base : Location} (hok : rejectStorageSymlinks h base = .ok ()) :
    NoLinks h base := by
  unfold rejectStorageSymlinks at hok
  obtain ⟨_, hfixed, hok⟩ := bind_eq_ok.mp hok
  obtain ⟨_, hobjects, hok⟩ := bind_eq_ok.mp hok
  obtain ⟨_, hpacks, hrefs⟩ := bind_eq_ok.mp hok
  exact ⟨rejectFixed_ok hfixed, hobjects, hpacks, hrefs⟩

private theorem NoLinks.not_link {base : Location} (hno : NoLinks h base) {rel : List Text}
    (hrel : StoragePath rel)
    (hdeep : ∀ dir name target : Text, rel = [("objects" : Text), dir, name] → dir ≠ "pack" →
      h.tree.entry (base ++ rel) ≠ some (.link target))
    (q : List Text) (target : Text) (hq : q ≠ []) (hpre : q <+: rel) :
    h.tree.entry (base ++ q) ≠ some (.link target) := by
  have hfixed : ∀ s : Text, [s] ∈ fixedEntries → h.tree.entry (base ++ [s]) ≠ some (.link target) :=
    fun s hs => not_link_of_reject (hno.fixed [s] hs) target
  obtain ⟨s, q, rfl⟩ := List.exists_cons_of_ne_nil hq
  cases hrel with
  | head =>
    obtain ⟨rfl, hnil⟩ := List.cons_prefix_cons.mp hpre
    rw [List.prefix_nil.mp hnil]
    exact hfixed _ (by decide)
  | packedRefs =>
    obtain ⟨rfl, hnil⟩ := List.cons_prefix_cons.mp hpre
    rw [List.prefix_nil.mp hnil]
    exact hfixed _ (by decide)
  | ref names =>
    obtain ⟨rfl, -⟩ := List.cons_prefix_cons.mp hpre
    by_cases hnil : q = []
    · rw [hnil]
      exact hfixed _ (by decide)
    · have hclean := walkRefs_clean hno.refs _ List.mem_cons_self q target hnil
      rwa [List.append_assoc] at hclean
  | object dir name =>
    obtain ⟨rfl, hpre'⟩ := List.cons_prefix_cons.mp hpre
    cases q with
    | nil => exact hfixed _ (by decide)
    | cons s q =>
      obtain ⟨rfl, hpre''⟩ := List.cons_prefix_cons.mp hpre'
      cases q with
      | nil =>
        have hchild := not_link_of_children hno.objects s target
        rwa [List.append_assoc] at hchild
      | cons s' q =>
        obtain ⟨rfl, hnil⟩ := List.cons_prefix_cons.mp hpre''
        rw [List.prefix_nil.mp hnil]
        by_cases hpack : s = "pack"
        · rw [hpack]
          have hchild := not_link_of_children hno.packs s' target
          rwa [List.append_assoc] at hchild
        · exact hdeep s s' target rfl hpack

/-- Names below a canonical place lead down from it and nowhere else, where no link stands. -/
private theorem resolved_below {base : Location} {e : FsEntry} (hbase : h.tree.entry base = some e)
    (hlink : ∀ target, e ≠ .link target) {rel : List Text} (hplain : PlainNames rel)
    (hrel : ∀ q target, q ≠ [] → q <+: rel → h.tree.entry (base ++ q) ≠ some (.link target)) :
    (∀ s ∈ (h.tree.walk true [] (base ++ rel)).steps, ∃ q, q <+: base ++ rel ∧ s = .entry q) ∧
      ∀ p, (h.tree.walk true [] (base ++ rel)).result = .ok p → p = base ++ rel := by
  have hnames : PlainNames (base ++ rel) := by
    intro s hs
    rcases List.mem_append.mp hs with hs | hs
    · exact h.toFileSystem.plainNames hbase s hs
    · exact hplain s hs
  obtain ⟨jump, hjump⟩ := walk_eq h.tree true
  have hdown := @walkWith_down jump h.tree [] (base ++ rel) [] (.inl rfl) hnames <| by
    intro q target hq hpre
    rw [List.nil_append]
    rcases List.prefix_or_prefix_of_prefix hpre (List.prefix_append base rel) with hq' | ⟨r, rfl⟩
    · by_cases heq : q = base
      · rw [heq, hbase]
        exact fun hl => hlink target (Option.some.inj hl)
      · rw [(h.toFileSystem.real_of_entry hbase).1 q hq' heq]
        intro hl
        cases hl
    · by_cases hr : r = []
      · rw [hr, List.append_nil, hbase]
        exact fun hl => hlink target (Option.some.inj hl)
      · exact hrel r target hr ((List.prefix_append_right_inj base).mp hpre)
  rw [List.append_nil] at hdown
  rw [hjump]
  exact hdown

private theorem requireUnder_ok {root p : Location} {what : Text}
    (hok : requireUnder h root p what = .ok ()) : ∃ canon, h.canonicalize p = .ok canon ∧
      root <+: canon := by
  unfold requireUnder escapeOn at hok
  cases hcanon : h.canonicalize p with
  | error e =>
    rw [hcanon] at hok
    cases hok
  | ok canon =>
    rw [hcanon] at hok
    dsimp only at hok
    split at hok
    · rename_i hpre
      exact ⟨canon, rfl, List.isPrefixOf_iff_prefix.mp hpre⟩
    · cases hok

private theorem requireLocal_ok {gitdir common root : Location}
    (hok : requireLocal gitdir common root = .ok ()) :
    ∃ m, common = m ++ [(".git" : Text)] ∧ m <+: root := by
  unfold requireLocal at hok
  split at hok
  · cases hok
  · rename_i hlast
    rw [not_not] at hlast
    dsimp only at hok
    split at hok
    · rename_i hpre
      exact ⟨common.dropLast, (List.dropLast_append_getLast? _ hlast).symm,
        List.isPrefixOf_iff_prefix.mp hpre⟩
    · cases hok

private theorem requireLayout_ok {gitdir common root : Location}
    (hok : requireLayout gitdir common root = .ok ()) :
    ∃ name, gitdir = common ++ [("worktrees" : Text), name] := by
  unfold requireLayout at hok
  dsimp only at hok
  split at hok
  · rename_i hlayout
    obtain ⟨hne, hlast, hfront⟩ := hlayout
    refine ⟨gitdir.getLast hne, ?_⟩
    rw [← hfront, List.append_cons, List.dropLast_append_getLast? _ hlast,
      List.dropLast_append_getLast]
  · cases hok

private theorem escapeOn_ok {α : Type} {what : Text} {r : Except Errno α} {a : α}
    (hok : escapeOn what r = .ok a) : r = .ok a := by
  cases r with
  | error e => cases hok
  | ok b =>
    cases hok
    rfl

private theorem canonicalize_canonical {p canon : Location} {e : FsEntry}
    (hp : h.tree.entry p = some e) (hlink : ∀ target, e ≠ .link target)
    (hcanon : h.canonicalize p = .ok canon) : canon = p := by
  obtain ⟨ss, hwalk, -⟩ := canonicalize_walk (entry_of_canonicalize hcanon)
  have hplain : PlainNames [] := fun s hs => by cases hs
  have hdown := (resolved_below hp hlink hplain fun q target hne hpre =>
    absurd (List.prefix_nil.mp hpre) hne).2
  rw [List.append_nil, hwalk] at hdown
  exact hdown canon rfl

/-- The worktree's git directory names the `.git` file of the root. -/
def BackPointer (h : HostFiles) (gitdirText : Text) (root : Location) : Prop :=
  ∃ raw, h.readToString (h.place (UnixPath.push gitdirText "gitdir")) = .ok raw ∧
    h.canonicalize (h.place (trim raw)) = .ok (root ++ [(".git" : Text)])

private theorem requireRegularFile_ok {p : Location} {s shown what : Text}
    (hok : requireRegularFile h (p ++ [s]) shown what = .ok ()) (hdir : h.tree.entry p = some .dir)
    (hs : s ≠ here ∧ s ≠ above) :
    ∃ bytes, h.tree.entry (p ++ [s]) = some (.file bytes) := by
  have hp : PlainNames p := h.toFileSystem.plainNames hdir
  have hreal : h.tree.Real [] (names p) := by
    rw [names_plain hp]
    exact h.toFileSystem.real_of_dir hdir
  unfold requireRegularFile at hok
  cases hmeta : h.symlinkMetadata (p ++ [s]) with
  | error e =>
    rw [hmeta] at hok
    cases hok
  | ok e =>
    rw [hmeta] at hok
    unfold HostFiles.symlinkMetadata at hmeta
    split at hmeta
    · cases hmeta
    · by_cases hnul : hasNul (p ++ [s]) = true
      · unfold FileTree.metadata at hmeta
        rw [hnul] at hmeta
        cases hmeta
      · rw [metadata_name (by simpa using hnul) (above_notMem hp) hreal hs.1 hs.2, names_plain hp,
          List.nil_append] at hmeta
        split at hmeta
        · rename_i e' hentry
          cases hmeta
          rw [hentry]
          cases e with
          | file bytes => exact ⟨bytes, rfl⟩
          | _ => cases hok
        · cases hmeta

/-- Only a directory has something canonical below it. -/
private theorem dir_of_canonicalize_below {p canon : Location} {s : Text} {e : FsEntry}
    (hp : h.tree.entry p = some e) (hlink : ∀ target, e ≠ .link target) (hs : s ≠ here ∧ s ≠ above)
    (hcanon : h.canonicalize (p ++ [s]) = .ok canon) :
    h.tree.entry p = some .dir := by
  by_contra hdir
  have hnone : h.tree.entry (p ++ [s]) = none := by
    by_contra hsome
    obtain ⟨e', he'⟩ := Option.ne_none_iff_exists'.mp hsome
    exact hdir (h.toFileSystem.dir_of_below he')
  have hplain : PlainNames [s] := fun s' hs' => by rwa [List.mem_singleton.mp hs']
  have htree := entry_of_canonicalize hcanon
  obtain ⟨ss, hwalk, -⟩ := canonicalize_walk htree
  have hdown := (resolved_below hp hlink hplain fun q target hne hpre => by
    obtain ⟨s', q, rfl⟩ := List.exists_cons_of_ne_nil hne
    obtain ⟨rfl, hnil⟩ := List.cons_prefix_cons.mp hpre
    rw [List.prefix_nil.mp hnil, hnone]
    intro hl
    cases hl).2
  rw [hwalk] at hdown
  obtain ⟨e', he', -⟩ := h.toFileSystem.entry_canonicalize htree
  rw [hdown canon rfl, hnone] at he'
  cases he'

private theorem requireBinding_ok {gitdirText : Text} {gitdir root : Location} {e : FsEntry}
    (hok : requireBinding h gitdirText gitdir root = .ok ()) (hroot : h.tree.entry root = some e)
    (hlink : ∀ target, e ≠ .link target) :
    BackPointer h gitdirText root := by
  unfold requireBinding at hok
  split at hok
  · cases hok
  · rename_i raw hraw
    obtain ⟨dotGit, hdot, hok⟩ := bind_eq_ok.mp hok
    obtain ⟨_, hregular, hok⟩ := bind_eq_ok.mp hok
    obtain ⟨expected, hexpected, hok⟩ := bind_eq_ok.mp hok
    have hdir := dir_of_canonicalize_below hroot hlink (by decide) (escapeOn_ok hexpected)
    obtain ⟨bytes, hfile⟩ := requireRegularFile_ok hregular hdir (by decide)
    have hplace : expected = root ++ [(".git" : Text)] :=
      canonicalize_canonical hfile (by simp) (escapeOn_ok hexpected)
    have hdot' := escapeOn_ok hdot
    split at hdot'
    · cases hdot'
    · split at hok
      · rename_i heq
        exact ⟨raw, hraw, by rw [hdot', heq, hplace]⟩
      · cases hok

/-- Where the directories of a repository stand: in the root, or in the main repository that the root
is a linked worktree of. -/
inductive Placed (h : HostFiles) (gitdirText : Text) (gitdir common root : Location) :
    Location → Prop
  | primary (hgitdir : root <+: gitdir) (hcommon : root <+: common) :
    Placed h gitdirText gitdir common root root
  | worktree (m : Location) (name : Text) (hcommon : common = m ++ [(".git" : Text)])
    (hgitdir : gitdir = common ++ [("worktrees" : Text), name]) (hroot : m <+: root)
    (hpointer : BackPointer h gitdirText root) : Placed h gitdirText gitdir common root m

theorem Placed.inside {gitdirText : Text} {gitdir common root m : Location}
    (hp : Placed h gitdirText gitdir common root m) :
    m <+: root ∧ m <+: gitdir ∧ m <+: common := by
  cases hp with
  | primary hgitdir hcommon => exact ⟨List.prefix_rfl, hgitdir, hcommon⟩
  | worktree m name hcommon hgitdir hroot hpointer =>
    refine ⟨hroot, ?_, ?_⟩
    · rw [hgitdir, hcommon, List.append_assoc]
      exact List.prefix_append _ _
    · rw [hcommon]
      exact List.prefix_append _ _

private theorem verifyPlacement_ok {gitdirText : Text} {gitdir common root : Location}
    {e e' : FsEntry} (hok : verifyPlacement h gitdirText gitdir common root = .ok ())
    (hcommon : h.tree.entry common = some e) (hlink : ∀ target, e ≠ .link target)
    (hroot : h.tree.entry root = some e') (hlink' : ∀ target, e' ≠ .link target) :
    ∃ m, Placed h gitdirText gitdir common root m := by
  unfold verifyPlacement at hok
  split at hok
  · rename_i hpre
    obtain ⟨_, hunder, -⟩ := bind_eq_ok.mp hok
    obtain ⟨canon, hcanon, hprefix⟩ := requireUnder_ok hunder
    rw [canonicalize_canonical hcommon hlink hcanon] at hprefix
    exact ⟨root, .primary (List.isPrefixOf_iff_prefix.mp hpre) hprefix⟩
  · unfold verifyLinkedWorktree at hok
    obtain ⟨_, hlocal, hok⟩ := bind_eq_ok.mp hok
    obtain ⟨_, hlayout, hok⟩ := bind_eq_ok.mp hok
    obtain ⟨_, -, hok⟩ := bind_eq_ok.mp hok
    obtain ⟨_, -, hbinding⟩ := bind_eq_ok.mp hok
    obtain ⟨m, hm, hbelow⟩ := requireLocal_ok hlocal
    obtain ⟨name, hname⟩ := requireLayout_ok hlayout
    exact ⟨m, .worktree m name hm hname hbelow (requireBinding_ok hbinding hroot hlink')⟩

/-- A repository that is opened stands in the tree that was asked for, or in that of the main
repository around it; it names no other object store, and its references and objects, a loose object
that is itself a link apart, are read from where they stand by name. -/
theorem open_confined {openExt : Text → Except Text Text} {path gitdirText : Text}
    (hopen : openRepo h openExt path = .ok gitdirText) :
    ∃ root gitdir common m, h.canonicalize (h.place path) = .ok root ∧
      h.canonicalize (h.place gitdirText) = .ok gitdir ∧
      (∃ shown, commonDir h gitdirText = .ok shown ∧
        h.canonicalize (h.place shown) = .ok common) ∧
      Placed h gitdirText gitdir common root m ∧ h.tree.entry (alternates common) = none ∧
      ∀ base ∈ [gitdir, common], m <+: base ∧ ∀ rel, StoragePath rel → PlainNames rel →
        (∀ dir name target : Text, rel = [("objects" : Text), dir, name] → dir ≠ "pack" →
          h.tree.entry (base ++ rel) ≠ some (.link target)) →
        (∀ s ∈ (h.tree.walk true [] (base ++ rel)).steps,
            ∃ q, q <+: base ++ rel ∧ s = .entry q) ∧
          ∀ p, (h.tree.walk true [] (base ++ rel)).result = .ok p → p = base ++ rel := by
  unfold openRepo at hopen
  split at hopen
  · cases hopen
  · rename_i gitdirText' _
    obtain ⟨root, hcanon, hopen⟩ := bind_eq_ok.mp hopen
    obtain ⟨_, hverify, hpure⟩ := bind_eq_ok.mp hopen
    cases hpure
    have hroot' := escapeOn_ok hcanon
    split at hroot'
    · cases hroot'
    · unfold verifyRepoBoundary at hverify
      obtain ⟨gitdir, hgitdir, hverify⟩ := bind_eq_ok.mp hverify
      obtain ⟨shown, hshown, hverify⟩ := bind_eq_ok.mp hverify
      obtain ⟨common, hcommon, hverify⟩ := bind_eq_ok.mp hverify
      obtain ⟨_, hplacement, hverify⟩ := bind_eq_ok.mp hverify
      obtain ⟨_, halternates, hverify⟩ := bind_eq_ok.mp hverify
      obtain ⟨_, hlinks, hlinks'⟩ := bind_eq_ok.mp hverify
      have hgitdir' := escapeOn_ok hgitdir
      have hcommon' := escapeOn_ok hcommon
      obtain ⟨e, he, hlink⟩ :=
        h.toFileSystem.entry_canonicalize (entry_of_canonicalize hcommon')
      obtain ⟨e', he', hlink'⟩ :=
        h.toFileSystem.entry_canonicalize (entry_of_canonicalize hgitdir')
      obtain ⟨er, her, hlinkr⟩ := h.toFileSystem.entry_canonicalize (entry_of_canonicalize hroot')
      obtain ⟨m, hm⟩ := verifyPlacement_ok hplacement he hlink her hlinkr
      refine ⟨root, gitdir, common, m, hroot', hgitdir', ⟨shown, hshown, hcommon'⟩, hm,
        alternates_absent halternates, fun base hbase => ?_⟩
      simp only [List.mem_cons, List.not_mem_nil, or_false] at hbase
      rcases hbase with rfl | rfl
      · refine ⟨hm.inside.2.1, fun rel hrel hplain hdeep => ?_⟩
        exact resolved_below he' hlink' hplain ((noLinks_of_reject hlinks).not_link hrel hdeep)
      · refine ⟨hm.inside.2.2, fun rel hrel hplain hdeep => ?_⟩
        exact resolved_below he hlink hplain ((noLinks_of_reject hlinks').not_link hrel hdeep)

/-- Files that can all be looked at. -/
def openFiles (es : List (Location × FsEntry)) (hroot : es.lookup [] = some .dir)
    (hbelow : ∀ x ∈ es, x.1 = [] ∨ es.lookup x.1.dropLast = some .dir ∧
      (x.1.getLastD [] ∉ [[], ("." : Text), ".."] ∧
        (x.1.getLastD []).all fun c => c ≠ '/' ∧ c ≠ '\x00')) : HostFiles where
  toFileSystem := .ofList es hroot hbelow
  cwd := []
  barred := fun _ => false
  listing := fun p => .ok <| es.filterMap fun x =>
    if x.1 ≠ [] ∧ x.1.dropLast = p then (es.lookup x.1).map (.entry (x.1.getLastD []) ·) else none
  present := fun _ _ h => by cases h
  listed := by
    rintro p items ⟨rfl⟩ s e hentry
    obtain ⟨l₁, l₂, heq, -⟩ := List.lookup_eq_some_iff.mp hentry
    have hmem : (p ++ [s], e) ∈ es := by
      rw [heq]
      exact List.mem_append_right _ List.mem_cons_self
    have hlookup : es.lookup (p ++ [s]) = some e := hentry
    left
    apply List.mem_filterMap.mpr
    refine ⟨_, hmem, ?_⟩
    simp [hlookup]
  genuine := by
    rintro p items ⟨rfl⟩ s e hitem
    obtain ⟨x, -, hx⟩ := List.mem_filterMap.mp hitem
    split at hx
    · rename_i hplace
      obtain ⟨hne, hdrop⟩ := hplace
      obtain ⟨e', he', heq⟩ := Option.map_eq_some_iff.mp hx
      cases heq
      have hlast : x.1.getLastD [] = x.1.getLast hne := by
        rw [List.getLastD_eq_getLast?, List.getLast?_eq_some_getLast hne]
        rfl
      rw [hlast, ← hdrop, List.dropLast_append_getLast]
      exact he'
    · cases hx

def nestedFiles : HostFiles :=
  openFiles [([], .dir), (["m"], .dir), (["m", ".git"], .dir), (["m", ".git", "HEAD"], .file []),
    (["m", ".git", "objects"], .dir), (["m", ".git", "objects", "pack"], .dir),
    (["m", ".git", "refs"], .dir), (["m", ".git", "refs", "heads"], .dir),
    (["m", ".git", "refs", "heads", "main"], .file []), (["m", ".git", "worktrees"], .dir),
    (["m", ".git", "worktrees", "w"], .dir), (["m", ".git", "worktrees", "w", "HEAD"], .file []),
    (["m", ".git", "worktrees", "w", "commondir"], .file (toUtf8 "../..\n")),
    (["m", ".git", "worktrees", "w", "gitdir"], .file (toUtf8 "/m/wt/.git\n")),
    (["m", "wt"], .dir), (["m", "wt", ".git"], .file [])] (by decide +kernel) (by decide +kernel)

def nestedGitdir : Text := "/m/.git/worktrees/w/"

private theorem nested_opens :
    openRepo nestedFiles (fun _ => .ok nestedGitdir) "/m/wt" = .ok nestedGitdir := by
  decide +kernel

/-- The worktree is opened, and the branches of its main repository are read where they stand. -/
theorem nested_confined :
    ∃ root gitdir common m, nestedFiles.canonicalize (nestedFiles.place "/m/wt") = .ok root ∧
      nestedFiles.canonicalize (nestedFiles.place nestedGitdir) = .ok gitdir ∧
      (∃ shown, commonDir nestedFiles nestedGitdir = .ok shown ∧
        nestedFiles.canonicalize (nestedFiles.place shown) = .ok common) ∧
      Placed nestedFiles nestedGitdir gitdir common root m ∧
      nestedFiles.tree.entry (alternates common) = none := by
  obtain ⟨root, gitdir, common, m, hroot, hgitdir, hcommon, hplaced, halternates, -⟩ :=
    open_confined nested_opens
  exact ⟨root, gitdir, common, m, hroot, hgitdir, hcommon, hplaced, halternates⟩

end Boundary

end Jitgen
