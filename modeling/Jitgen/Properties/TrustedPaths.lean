import Jitgen.Framework.PathTraces
import Jitgen.Orchestrator.TrustedPath

/-!
# Trusted paths outside the repository

What an accepted path may go through when it is resolved, and where the directories that it is missing
are created.
-/

namespace Jitgen

open Text FileTree

/-- What the system goes through for a path. -/
def resolution (t : FileTree) (cwd : Location) (path : Text) : Walk :=
  if path.isEmpty then ⟨[], .error .notFound⟩
  else if path.contains '\x00' then ⟨[], .error .nulByte⟩
  else t.walk true (if UnixPath.isAbsolute path then [] else cwd) (pieces path)

/-- Where the text of a path and the links there are lead it, its missing directories created. -/
def tracing (t : FileTree) (cwd : Location) (path : Text) : Walk :=
  if path.isEmpty then ⟨[], .error .notFound⟩
  else if path.contains '\x00' then ⟨[], .error .nulByte⟩
  else t.trace (if UnixPath.isAbsolute path then [] else cwd) (pieces path)

/-- A resolution goes through an entry below a directory, or ends there. -/
def Enters (base : Location) (w : Walk) : Prop :=
  (∃ s ∈ w.steps, StrictlyInside base s.place) ∨ ∃ p, w.result = .ok p ∧ base <+: p

/-- A path that stays out of a directory, whichever missing directories are created. -/
def StaysOutside (fs : FileSystem) (cwd : Location) (path : Text) (base : Location) : Prop :=
  ∀ fs' : FileSystem, Extends fs.tree fs'.tree → ¬ Enters base (resolution fs'.tree cwd path)

/-- The existing part of a path ends at a link that leads nowhere, or in front of a `..`. -/
def BreaksOff (t : FileTree) (p : AbsPath) : Prop :=
  ∃ pre s post loc, p.names = pre ++ s :: post ∧ t.canonicalize pre = some loc ∧
    t.canonicalize (AbsPath.mk (pre ++ [s]) (post.isEmpty && p.slash)).pieces = none ∧
    (above ∈ s :: post ∨ ∃ target, t.entry (loc ++ [s]) = some (.link target))

namespace AbsPath

private theorem canonicalize_root {t : FileTree} (hroot : t.entry [] = some .dir) (slash : Bool) :
    t.canonicalize (AbsPath.mk [] slash).pieces = some [] := by
  have hnul : hasNul [here] = false := by decide
  cases slash
  · simp [pieces, canonicalize, walk, walkN, walkWith, maxLinks, hasNul, hroot]
  · simp [pieces, canonicalize, walk, walkN, walkWith, maxLinks, hnul, hroot]

private theorem canonicalGo_none {t : FileTree} {rev : List Text} {s : Text} {slash : Bool}
    (tail : List Text) (hs : s ≠ above)
    (hnone : t.canonicalize (AbsPath.mk (s :: rev).reverse slash).pieces = none) :
    canonicalGo t (s :: rev) slash tail = canonicalGo t rev false (s :: tail) := by
  rw [canonicalGo]
  simp only [metadata_isOk, hnone, Option.isSome_none, Bool.false_eq_true, if_false, if_neg hs]

private theorem canonicalGo_some {t : FileTree} {rev : List Text} {slash : Bool} {loc : Location}
    (tail : List Text) (hsome : t.canonicalize (AbsPath.mk rev.reverse slash).pieces = some loc) :
    canonicalGo t rev slash tail = loc ++ tail := by
  rw [canonicalGo.eq_def]
  simp only [metadata_isOk, hsome, Option.isSome_some, if_true, Option.getD_some]

private theorem pieces_plain (ns : List Text) :
    (AbsPath.mk ns false).pieces = ns := List.append_nil ns

/-- Where the existing part of a path ends; names without `..` behind it follow its place. -/
private theorem canonicalGo_spec {t : FileTree} (hroot : t.entry [] = some .dir)
    {rev tail : List Text} {slash : Bool}
    (hnone : t.canonicalize (AbsPath.mk rev.reverse slash).pieces = none) :
    ∃ pre s post loc, rev.reverse = pre ++ s :: post ∧ t.canonicalize pre = some loc ∧
      t.canonicalize (AbsPath.mk (pre ++ [s]) (post.isEmpty && slash)).pieces = none ∧
      (above ∉ s :: post → canonicalGo t rev slash tail = loc ++ s :: post ++ tail) := by
  induction rev generalizing slash tail with
  | nil =>
    rw [List.reverse_nil, canonicalize_root hroot] at hnone
    cases hnone
  | cons s rev ih =>
    cases hparent : t.canonicalize rev.reverse with
    | some loc =>
      refine ⟨rev.reverse, s, [], loc, List.reverse_cons, hparent, ?_, fun hup => ?_⟩
      · rw [List.isEmpty_nil, Bool.true_and, ← List.reverse_cons]
        exact hnone
      · have hs : s ≠ above := fun heq => hup (heq ▸ List.mem_cons_self)
        rw [canonicalGo_none tail hs hnone, canonicalGo_some _ (by rw [pieces_plain, hparent])]
        rw [List.append_assoc, List.singleton_append]
    | none =>
      obtain ⟨pre, s', post, loc, hnames, hpre, hbreak, hgo⟩ :=
        @ih (s :: tail) false (by rw [pieces_plain, hparent])
      refine ⟨pre, s', post ++ [s], loc, ?_, hpre, ?_, fun hup => ?_⟩
      · rw [List.reverse_cons, hnames, List.append_assoc, List.cons_append]
      · have hmore : (post ++ [s]).isEmpty = false := by simp
        rw [Bool.and_false] at hbreak
        rw [hmore, Bool.false_and]
        exact hbreak
      · rw [← List.cons_append, List.mem_append, not_or] at hup
        have hs : s ≠ above := fun heq => hup.2 (heq ▸ List.mem_cons_self)
        rw [canonicalGo_none tail hs hnone, hgo hup.1]
        simp only [List.append_assoc, List.cons_append, List.nil_append]

end AbsPath

private theorem thinned_pieces (path : Text) :
    Thinned (pieces path)
      (AbsPath.mk (names (pieces path)) (path.endsWith "/" && !(pieces path).isEmpty)).pieces := by
  by_cases hslash : (path.endsWith "/" && !(pieces path).isEmpty) = true
  · obtain ⟨init, hinit⟩ : ∃ init, pieces path = init ++ [here] := by
      rw [Bool.and_eq_true] at hslash
      unfold pieces at hslash ⊢
      dsimp only at hslash ⊢
      split
      · exact ⟨_, rfl⟩
      · rename_i hcond
        rw [if_neg hcond] at hslash
        rw [Bool.and_eq_true] at hcond
        exact absurd hslash hcond
    have hnames : names (init ++ [here]) = names init := by simp [names]
    rw [hslash, hinit, AbsPath.pieces, if_pos rfl, hnames]
    exact .append (thinned_names init) (.refl _)
  · rw [Bool.not_eq_true] at hslash
    rw [hslash, AbsPath.pieces_plain]
    exact thinned_names _

/-- A path is resolved as the absolute one is, once the working directory is reached. -/
private theorem resolution_agrees (fs : FileSystem) {cwd : Location}
    (hcwd : fs.tree.entry cwd = some .dir) {path : Text} {p : AbsPath}
    (habs : AbsPath.absolute cwd path = some p) (hnul : path.contains '\x00' = false) :
    ∃ ss, (∀ s ∈ ss, ∃ q, s = .entry q) ∧
      ((resolution fs.tree cwd path).after ss).Agrees (fs.tree.walk true [] p.pieces) := by
  unfold AbsPath.absolute at habs
  split at habs
  · cases habs
  · rename_i hne
    unfold resolution
    rw [if_neg hne, hnul]
    simp only [Bool.false_eq_true, if_false]
    rw [← Option.some.inj habs]
    by_cases habsolute : UnixPath.isAbsolute path = true
    · simp only [habsolute, if_true]
      refine ⟨[], by simp, ?_⟩
      exact walkN_thinned (thinned_pieces path)
    · simp only [habsolute, Bool.false_eq_true, if_false]
      obtain ⟨jump, hjump⟩ := walk_eq fs.tree true
      obtain ⟨ss, hss, hrest⟩ := @walkWith_entries jump fs.tree [] cwd true (fs.plainNames hcwd)
        (fs.real_of_dir hcwd)
      have hthin : (fs.tree.walk true cwd (pieces path)).Agrees
          (fs.tree.walk true cwd (AbsPath.mk (names (pieces path))
            (path.endsWith "/" && !(pieces path).isEmpty)).pieces) :=
        walkN_thinned (thinned_pieces path)
      refine ⟨ss, hss, ?_⟩
      rw [hjump] at hthin ⊢
      rw [AbsPath.pieces, List.append_assoc, hrest]
      exact hthin.after ss

section

variable {t' : FileTree} {p : AbsPath} {base : Location}

private theorem walk_nil (t : FileTree) (follow : Bool) (n : Nat) (cur : Location) :
    walkN t follow n cur [] = ⟨[], .ok cur⟩ := by
  cases n <;> rfl

private theorem walk_of_canonicalize {t : FileTree} (hext : Extends t t') {ps : List Text}
    {loc : Location} (h : t.canonicalize ps = some loc) :
    ∃ ss, t.walk true [] ps = ⟨ss, .ok loc⟩ ∧ t'.walk true [] ps = ⟨ss, .ok loc⟩ := by
  obtain ⟨ss, hwalk, hloc⟩ := canonicalize_walk h
  obtain ⟨n, hn⟩ := walkN_append hext hloc hwalk
  have hpost := hn []
  rw [List.append_nil, walk_nil, Walk.after, List.append_nil] at hpost
  exact ⟨ss, hwalk, hpost⟩

private theorem not_enters {ss : List Step} {loc : Location} {n : Nat} {ps : List Text}
    {t : FileTree} (hwalk : walkN t true n [] ps = ⟨ss, .ok loc⟩) (hdetour : ¬ Detour base ss)
    (hloc : ¬ base <+: loc) {s : Step} (hs : s ∈ ss) : ¬ StrictlyInside base s.place :=
  fun hin => hloc (walkN_stays hwalk hdetour (.inr ⟨s, hs, hin⟩)).1

private theorem stays_out_of_some (fs : FileSystem) (hext : Extends fs.tree t') {loc : Location}
    (hloc : fs.tree.canonicalize p.pieces = some loc) (hpre : ¬ base <+: loc)
    (hdetour : ¬ Detour base (fs.tree.walk true [] p.pieces).steps) :
    ¬ Enters base (t'.walk true [] p.pieces) := by
  obtain ⟨ss, hwalk, hwalk'⟩ := walk_of_canonicalize hext hloc
  rw [hwalk] at hdetour
  rw [hwalk']
  intro henters
  rcases henters with ⟨s, hs, hin⟩ | ⟨q, hq, hbase⟩
  · exact not_enters hwalk hdetour hpre hs hin
  · exact hpre (Except.ok.inj hq ▸ hbase)

private theorem hasNul_append (ps qs : List Text) : hasNul (ps ++ qs) = (hasNul ps || hasNul qs) :=
  List.any_append

private theorem hasNul_pieces (p : AbsPath) : hasNul p.pieces = hasNul p.names := by
  have hnul : hasNul [here] = false := by decide
  unfold AbsPath.pieces
  cases p.slash
  · simp
  · simp [hasNul_append, hnul]

private theorem canonicalize_next (fs : FileSystem) {pre : List Text} {s : Text} {loc : Location}
    (slash : Bool) (hpre : fs.tree.canonicalize pre = some loc) (hs : s ≠ here) (hs' : s ≠ above)
    (hnul : hasNul (pre ++ [s]) = false) (hdir : fs.tree.entry (loc ++ [s]) = some .dir) :
    fs.tree.canonicalize (AbsPath.mk (pre ++ [s]) slash).pieces = some (loc ++ [s]) := by
  obtain ⟨ss, hwalk, hloc⟩ := canonicalize_walk hpre
  obtain ⟨n, hn⟩ := walkN_append (.refl _) hloc hwalk
  have hbase : fs.tree.entry loc = some .dir := (fs.below loc s .dir hdir).1
  have hstep : ∀ m, walkN fs.tree true m loc (AbsPath.mk [s] slash).pieces =
      ⟨[.entry (loc ++ [s])], .ok (loc ++ [s])⟩ := by
    intro m
    cases slash <;> cases m <;>
      simp [AbsPath.pieces, walkN, walkWith, hbase, hs, hs', hdir, Walk.cons]
  have hpieces : (AbsPath.mk (pre ++ [s]) slash).pieces = pre ++ (AbsPath.mk [s] slash).pieces :=
    List.append_assoc ..
  have hfull := hn (AbsPath.mk [s] slash).pieces
  rw [hstep, ← hpieces] at hfull
  apply canonicalize_of_walk _ hfull hdir
  rw [hasNul_pieces]
  exact hnul

/-- Behind the existing part of a path there is nothing but directories that were added. -/
private theorem no_link_behind (fs : FileSystem) (hext : Extends fs.tree t') {pre post : List Text}
    {s : Text} {loc : Location} {slash : Bool} (hpre : fs.tree.canonicalize pre = some loc)
    (hnext : fs.tree.canonicalize (AbsPath.mk (pre ++ [s]) slash).pieces = none)
    (hnul : hasNul (pre ++ [s]) = false) (hs : s ≠ here ∧ s ≠ above)
    (hnolink : ∀ target, fs.tree.entry (loc ++ [s]) ≠ some (.link target)) (q : List Text)
    (target : Text) (hne : q ≠ []) (hq : q <+: s :: post) :
    t'.entry (loc ++ q) ≠ some (.link target) := by
  intro hentry
  have hentry' : fs.tree.entry (loc ++ q) = some (.link target) := by
    rcases hext (loc ++ q) with hsame | ⟨-, hdir⟩
    · rw [← hsame, hentry]
    · rw [hdir] at hentry
      cases hentry
  cases q with
  | nil => exact hne rfl
  | cons x q =>
    obtain ⟨rfl, hq⟩ := List.cons_prefix_cons.mp hq
    by_cases hnil : q = []
    · rw [hnil] at hentry'
      exact hnolink target hentry'
    · have hdir : fs.tree.entry (loc ++ [x]) = some .dir := by
        apply (fs.real_of_entry hentry').1
        · rw [List.prefix_append_right_inj]
          simp
        · simpa using Ne.symm hnil
      rw [canonicalize_next fs _ hpre hs.1 hs.2 hnul hdir] at hnext
      cases hnext

/-- The existing part of a path, followed by plain names, tells where it leads. -/
private theorem stays_out (fs : FileSystem) (hext : Extends fs.tree t') (hhere : here ∉ p.names)
    (hnul : hasNul p.names = false) (hoff : ¬ base <+: p.canonicalPrefix fs.tree)
    (hbreak : ¬ BreaksOff fs.tree p)
    (hdetour : ¬ Detour base (fs.tree.walk true [] p.pieces).steps) :
    ¬ Enters base (t'.walk true [] p.pieces) := by
  cases hcanonical : fs.tree.canonicalize p.pieces with
  | some loc =>
    unfold AbsPath.canonicalPrefix at hoff
    rw [hcanonical] at hoff
    exact stays_out_of_some fs hext hcanonical hoff hdetour
  | none =>
    have hnone : fs.tree.canonicalize (AbsPath.mk p.names.reverse.reverse p.slash).pieces = none := by
      rw [List.reverse_reverse]
      exact hcanonical
    obtain ⟨pre, s, post, loc, hnames, hpre, hnext, hgo⟩ :=
      @AbsPath.canonicalGo_spec fs.tree fs.root p.names.reverse [] p.slash hnone
    rw [List.reverse_reverse] at hnames
    have hup : above ∉ s :: post := fun hmem =>
      hbreak ⟨pre, s, post, loc, hnames, hpre, hnext, .inl hmem⟩
    have hnolink : ∀ target, fs.tree.entry (loc ++ [s]) ≠ some (.link target) := fun target h =>
      hbreak ⟨pre, s, post, loc, hnames, hpre, hnext, .inr ⟨target, h⟩⟩
    unfold AbsPath.canonicalPrefix at hoff
    rw [hcanonical, hgo hup, List.append_nil] at hoff
    have hmem : ∀ x ∈ s :: post, x ∈ p.names := fun x hx => by
      rw [hnames]
      exact List.mem_append_right _ hx
    have hplain : PlainNames (s :: post) := fun x hx =>
      ⟨fun heq => hhere (heq ▸ hmem x hx), fun heq => hup (heq ▸ hx)⟩
    have hnul' : hasNul (pre ++ [s]) = false := by
      rw [hnames, List.append_cons, hasNul_append, Bool.or_eq_false_iff] at hnul
      exact hnul.1
    have hlink := @no_link_behind t' fs hext pre post s loc _ hpre hnext hnul'
      (hplain s List.mem_cons_self) hnolink
    obtain ⟨ss, hwalk, hloc⟩ := canonicalize_walk hpre
    obtain ⟨n, hn⟩ := walkN_append hext hloc hwalk
    obtain ⟨m, hm⟩ := walkN_append (.refl _) hloc hwalk
    have hpieces : p.pieces = pre ++ (AbsPath.mk (s :: post) p.slash).pieces := by
      unfold AbsPath.pieces
      rw [hnames, List.append_assoc]
    have hss : ¬ Detour base ss := by
      intro h
      apply hdetour
      obtain ⟨x, hx, hturn⟩ := h
      refine ⟨x, ?_, hturn⟩
      rw [hpieces, walk, hm]
      exact List.mem_append_left _ hx
    have hout : ¬ base <+: loc := fun h => hoff (h.trans (List.prefix_append _ _))
    obtain ⟨jump, hjump⟩ : ∃ jump, walkN t' true n = walkWith jump t' true := by
      cases n <;> exact ⟨_, rfl⟩
    have htrail : (if p.slash then [here] else []) = [] ∨ (if p.slash then [here] else []) = [here] := by
      cases p.slash <;> simp
    obtain ⟨hsteps, hresult⟩ := @walkWith_down jump t' loc (s :: post) _ htrail hplain hlink
    rw [hpieces, walk, hn, hjump]
    intro henters
    rcases henters with ⟨x, hx, hin⟩ | ⟨q, hq, hbase⟩
    · rcases List.mem_append.mp hx with hx | hx
      · exact not_enters hwalk hss hout hx hin
      · obtain ⟨q, hq, rfl⟩ := hsteps x hx
        apply hoff
        exact hin.1.trans ((List.prefix_append_right_inj _).mpr hq)
    · rw [hresult q hq] at hbase
      exact hoff hbase

end

/-- The names of a path made absolute. -/
private theorem absolute_names (fs : FileSystem) {cwd : Location}
    (hcwd : fs.tree.entry cwd = some .dir) {path : Text} {p : AbsPath}
    (habs : AbsPath.absolute cwd path = some p) (hnul : path.contains '\x00' = false) :
    here ∉ p.names ∧ hasNul p.names = false := by
  unfold AbsPath.absolute at habs
  split at habs
  · cases habs
  · rw [← Option.some.inj habs]
    have hbase : here ∉ (if UnixPath.isAbsolute path then [] else cwd) ∧
        hasNul (if UnixPath.isAbsolute path then [] else cwd) = false := by
      split
      · exact ⟨List.not_mem_nil, rfl⟩
      · constructor
        · exact fun hmem => (fs.plainNames hcwd _ hmem).1 rfl
        · unfold hasNul
          rw [List.any_eq_false]
          intro s hs
          simpa using ((fs.real_of_entry hcwd).2 s hs).no_nul
    have hpath : ∀ s ∈ names (pieces path), s ≠ here ∧ '\x00' ∉ s := by
      intro s hs
      obtain ⟨hmem, hne⟩ := List.mem_filter.mp hs
      have hne : s ≠ here := by simpa using hne
      refine ⟨hne, fun hc => ?_⟩
      have hsplit : s ∈ path.splitOn '/' := by
        unfold pieces at hmem
        dsimp only at hmem
        split at hmem
        · rcases List.mem_append.mp hmem with hmem | hmem
          · exact (List.mem_filter.mp hmem).1
          · exact absurd (List.mem_singleton.mp hmem) hne
        · exact (List.mem_filter.mp hmem).1
      have hpath := UnixPath.mem_of_mem_splitOn hsplit hc
      rw [List.contains_eq_mem, decide_eq_false_iff_not] at hnul
      exact hnul hpath
    constructor
    · intro hmem
      rcases List.mem_append.mp hmem with hmem | hmem
      · exact hbase.1 hmem
      · exact (hpath _ hmem).1 rfl
    · rw [hasNul_append, hbase.2, Bool.false_or]
      unfold hasNul
      rw [List.any_eq_false]
      intro s hs
      simpa using (hpath s hs).2

theorem Enters.below {base : Location} {w w' : Walk} (h : w.Below w') (henters : Enters base w) :
    Enters base w' := by
  rcases henters with ⟨s, hs, hin⟩ | ⟨p, hp, hbase⟩
  · exact .inl ⟨s, h.1.subset hs, hin⟩
  · exact .inr ⟨p, h.2 p hp, hbase⟩

private theorem resolution_traced {t : FileTree} {fs' : FileSystem} (hext : Extends t fs'.tree)
    (cwd : Location) (path : Text) :
    (resolution fs'.tree cwd path).Below (tracing t cwd path) := by
  unfold resolution tracing
  split
  · exact .refl _
  · split
    · exact .refl _
    · exact walkN_traced hext

private theorem tracing_filled (fs : FileSystem) {cwd : Location}
    (hcwd : fs.tree.entry cwd = some .dir) (path : Text) :
    tracing fs.tree cwd path = resolution fs.filled.tree cwd path := by
  unfold resolution tracing
  split
  · rfl
  · split
    · rfl
    · apply fs.traceN_filled
      split
      · rw [filled_some fs.root]
        exact Option.some_ne_none _
      · rw [filled_some hcwd]
        exact Option.some_ne_none _

/-- Which accepted paths stay outside the repository. Those that do not leave it again, by a link that
is followed or a `..` that is taken below it, or break off at a dead link or in front of a `..` and go
into it by their text and links from there. -/
theorem staysOutside_iff (fs : FileSystem) {cwd : Location} (hcwd : fs.tree.entry cwd = some .dir)
    {path repoRoot what : Text} {repo : AbsPath} {base : Location}
    (hrepo : AbsPath.absolute cwd repoRoot = some repo)
    (hbase : fs.tree.canonicalize repo.pieces = some base)
    (haccept : ensureOutsideRepo fs.tree cwd path repoRoot what = .ok ()) :
    StaysOutside fs cwd path base ↔
      ¬ Detour base (resolution fs.tree cwd path).steps ∧
      ¬ ∃ p, AbsPath.absolute cwd path = some p ∧ BreaksOff fs.tree p ∧
        Enters base (tracing fs.tree cwd path) := by
  constructor
  · intro hstays
    constructor
    · rintro ⟨s, hs, -, hin⟩
      exact hstays fs (.refl _) (.inl ⟨s, hs, hin⟩)
    · rintro ⟨p, -, -, henters⟩
      rw [tracing_filled fs hcwd] at henters
      exact hstays fs.filled fs.extends_filled henters
  · rintro ⟨hdetour, hbreaks⟩ fs' hext henters
    have hsome : ∃ p, AbsPath.absolute cwd path = some p := by
      unfold AbsPath.absolute
      split
      · rename_i hempty
        unfold resolution at henters
        rw [if_pos hempty] at henters
        rcases henters with ⟨s, hs, -⟩ | ⟨q, hq, -⟩
        · cases hs
        · cases hq
      · exact ⟨_, rfl⟩
    obtain ⟨p, habs⟩ := hsome
    have hnul : path.contains '\x00' = false := by
      by_contra hnul
      rw [Bool.not_eq_false] at hnul
      unfold resolution at henters
      rw [hnul, if_pos rfl] at henters
      rcases henters with ⟨s, hs, -⟩ | ⟨q, hq, -⟩
      · split at hs <;> cases hs
      · split at hq <;> cases hq
    obtain ⟨hhere, hnul'⟩ := absolute_names fs hcwd habs hnul
    have hoff : ¬ base <+: p.canonicalPrefix fs.tree := by
      intro hpre
      unfold ensureOutsideRepo at haccept
      rw [habs, hrepo] at haccept
      have hcanonical : repo.canonicalPrefix fs.tree = base := by
        unfold AbsPath.canonicalPrefix
        rw [hbase]
      simp [hcanonical, hpre] at haccept
    have habsDetour : ¬ Detour base (fs.tree.walk true [] p.pieces).steps := by
      obtain ⟨ss, hss, hagree, -⟩ := resolution_agrees fs hcwd habs hnul
      rw [← hagree]
      rintro ⟨s, hs, hturn, hin⟩
      rcases List.mem_append.mp hs with hs | hs
      · obtain ⟨q, rfl⟩ := hss s hs
        cases hturn
      · exact hdetour ⟨s, hs, hturn, hin⟩
    have hbreak : ¬ BreaksOff fs.tree p := fun hbreak =>
      hbreaks ⟨p, habs, hbreak, henters.below (resolution_traced hext cwd path)⟩
    apply stays_out fs hext hhere hnul' hoff hbreak habsDetour
    obtain ⟨ss, -, hagree, hok⟩ := resolution_agrees fs' (hext.some hcwd) habs hnul
    rcases henters with ⟨s, hs, hin⟩ | ⟨q, hq, hinside⟩
    · exact .inl ⟨s, hagree ▸ List.mem_append_right ss hs, hin⟩
    · exact .inr ⟨q, hok q hq, hinside⟩

/-- A repository with a link planted in it, and directories beside it. -/
def plantedEntries : List (Location × FsEntry) :=
  [([], .dir), ([("home" : Text)], .dir), ([("home" : Text), ("x" : Text)], .dir),
    ([("home" : Text), ("repo" : Text)], .dir),
    ([("home" : Text), ("repo" : Text), ("evil" : Text)], .link "/ext"), ([("ext" : Text)], .dir)]

def plantedSystem : FileSystem := .ofList plantedEntries (by decide) (by decide)

def plantedRepo : Location := [("home" : Text), ("repo" : Text)]

theorem staysOutside_ext : StaysOutside plantedSystem [] "/ext" plantedRepo := by
  apply (@staysOutside_iff plantedSystem [] (by decide) "/ext" "/home/repo" "--state-dir"
    ⟨plantedRepo, false⟩ plantedRepo (by decide) (by decide) (by decide)).mpr
  refine ⟨by decide, ?_⟩
  rintro ⟨p, hp, ⟨pre, s, post, loc, hnames, -, hnone, -⟩, -⟩
  have habs : AbsPath.absolute [] "/ext" = some ⟨[("ext" : Text)], false⟩ := by decide
  rw [habs] at hp
  cases hp
  obtain ⟨rfl, rfl, rfl⟩ : pre = [] ∧ s = ("ext" : Text) ∧ post = [] := by
    cases pre with
    | nil => simpa [eq_comm] using hnames
    | cons x pre => simp at hnames
  exact absurd hnone (by decide)

/-- A path that leaves the repository again by a link planted there is accepted, and so is one whose
missing directory has a `..` behind it, which leads into the repository. -/
theorem path_through_repository_accepted :
    (plantedSystem.tree.canonicalize plantedRepo = some plantedRepo ∧
      ensureOutsideRepo plantedSystem.tree [] "/home/x/../repo/evil/s" "/home/repo" "--state-dir" =
        .ok () ∧
      ¬ StaysOutside plantedSystem [] "/home/x/../repo/evil/s" plantedRepo) ∧
    ensureOutsideRepo plantedSystem.tree [] "/ext/new/../../home/repo/s" "/home/repo" "--state-dir" =
        .ok () ∧
      ¬ StaysOutside plantedSystem [] "/ext/new/../../home/repo/s" plantedRepo := by
  refine ⟨⟨by decide +kernel, by decide +kernel, fun h => ?_⟩, by decide +kernel, fun h => ?_⟩
  · apply h plantedSystem (.refl _)
    exact .inl ⟨.link (plantedRepo ++ [("evil" : Text)]), by decide +kernel, by decide +kernel⟩
  · let created : FileSystem := .ofList (plantedEntries ++ [([("ext" : Text), ("new" : Text)], .dir)])
      (by decide +kernel) (by decide +kernel)
    apply h created
    · intro p
      have hentry : created.tree.entry p =
          (plantedEntries.lookup p).or (List.lookup p [([("ext" : Text), ("new" : Text)], .dir)]) :=
        List.lookup_append
      cases hold : plantedEntries.lookup p with
      | some e =>
        left
        rw [hentry, hold]
        exact hold.symm
      | none =>
        rw [hentry, hold, Option.none_or]
        by_cases hp : p = [("ext" : Text), ("new" : Text)]
        · exact .inr ⟨hold, by rw [hp]; rfl⟩
        · left
          rw [List.lookup_cons, List.lookup_nil]
          have hbeq : (p == [("ext" : Text), ("new" : Text)]) = false := by simpa using hp
          rw [hbeq]
          exact hold.symm
    · exact .inr ⟨plantedRepo ++ [("s" : Text)], by decide +kernel, by decide +kernel⟩

end Jitgen
