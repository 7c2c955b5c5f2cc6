import Jitgen.Orchestrator.OnDisk
import Jitgen.Orchestrator.StoreDoubles

/-!
# Confined writers

What a candidate's writer and the checkout's writer of one file may change of a tree in which
anything is planted below the root.
-/

namespace Jitgen.OnDisk

open Text FileTree

/-- A path that resolves below the root by plain names. -/
structure PlainRel (rel : Text) : Prop where
  ne_nil : segments rel ≠ []
  parent : ∃ lead, (lead = [] ∨ lead = [UnixPath.Component.curDir]) ∧
    UnixPath.components rel = lead ++ (segments rel).map .normal

theorem plainRel_of_safe {rel : Text} (h : rejectUnsafeRel rel = false) : PlainRel rel := by
  obtain ⟨lead, hlead, hne, hrel⟩ := components_of_safe h
  exact ⟨hne, lead, hlead, hrel⟩

/-- A path that ends in its last name. -/
structure Named (rel : Text) : Prop where
  nul : hasNul (pieces rel) = false
  last : (pieces rel).getLast? ≠ some here

namespace PlainRel

variable {rel : Text}

theorem normals (h : PlainRel rel) :
    UnixPath.normals (UnixPath.components rel) = segments rel := by
  obtain ⟨lead, hlead, hrel⟩ := h.parent
  rw [hrel]
  exact normals_plain hlead _

private theorem above_notMem_splitOn (h : PlainRel rel) : above ∉ rel.splitOn '/' := by
  intro hmem
  obtain ⟨lead, hlead, hrel⟩ := h.parent
  have hcomp : UnixPath.Component.parentDir ∈ UnixPath.components rel := by
    have hbody : UnixPath.Component.parentDir ∈ (rel.splitOn '/').filterMap UnixPath.segment :=
      List.mem_filterMap.mpr ⟨above, hmem, by decide⟩
    unfold UnixPath.components
    dsimp only
    split
    · exact List.mem_cons_of_mem _ hbody
    · split
      · exact List.mem_cons_of_mem _ hbody
      · exact hbody
  rw [hrel, List.mem_append] at hcomp
  rcases hcomp with hcomp | hcomp
  · rcases hlead with rfl | rfl <;> simp at hcomp
  · simp at hcomp

theorem plainNames (h : PlainRel rel) : PlainNames (segments rel) := by
  intro s hs
  obtain ⟨hmem, hseg⟩ := List.mem_filter.mp hs
  unfold isSegment at hseg
  refine ⟨(of_decide_eq_true hseg).2, ?_⟩
  rintro rfl
  exact h.above_notMem_splitOn hmem

private theorem above_notMem_pieces (h : PlainRel rel) : above ∉ pieces rel := by
  intro hmem
  unfold pieces at hmem
  dsimp only at hmem
  split at hmem
  · rcases List.mem_append.mp hmem with hmem | hmem
    · exact h.above_notMem_splitOn (List.mem_filter.mp hmem).1
    · exact absurd (List.mem_singleton.mp hmem) (by decide)
  · exact h.above_notMem_splitOn (List.mem_filter.mp hmem).1

theorem names_pieces (rel : Text) : names (pieces rel) = segments rel := by
  have hbody : names ((rel.splitOn '/').filter (!·.isEmpty)) = segments rel := by
    unfold names segments
    rw [List.filter_filter]
    apply List.filter_congr
    intro s _
    unfold isSegment here
    by_cases h₁ : s = [] <;> by_cases h₂ : s = ("." : Text) <;> simp [h₁, h₂]
  unfold pieces
  dsimp only
  split
  · rw [names_append, hbody]
    simp [names]
  · exact hbody

/-- The pieces of a path: they end in its last name, or they ask for a directory. -/
private theorem pieces_cases (h : PlainRel rel) :
    (∃ init s, pieces rel = init ++ [s] ∧ above ∉ init ∧ s ≠ here ∧ s ≠ above ∧
      names init = (segments rel).dropLast ∧ segments rel = (segments rel).dropLast ++ [s]) ∨
    ∃ init, pieces rel = init ++ [here] := by
  have hne : pieces rel ≠ [] := by
    intro hnil
    have hnames := names_pieces rel
    rw [hnil] at hnames
    exact h.ne_nil hnames.symm
  have hsplit := (List.dropLast_append_getLast hne).symm
  by_cases hlast : (pieces rel).getLast hne = here
  · rw [hlast] at hsplit
    exact .inr ⟨_, hsplit⟩
  · left
    have hnames := names_pieces rel
    rw [hsplit, names_append, names_name hlast] at hnames
    have hup := h.above_notMem_pieces
    refine ⟨(pieces rel).dropLast, (pieces rel).getLast hne, hsplit, ?_, hlast, ?_, ?_, ?_⟩
    · exact fun hmem => hup (List.mem_of_mem_dropLast hmem)
    · exact fun heq => hup (heq ▸ List.getLast_mem hne)
    · rw [← hnames]
      simp [names]
    · rw [← hnames]
      simp [names]

theorem parent_eq (h : PlainRel rel) : ∃ comps, UnixPath.parent rel = some comps ∧
    UnixPath.normals comps = (segments rel).dropLast ∧
    ∀ c ∈ comps, c ≠ UnixPath.Component.rootDir ∧ c ≠ UnixPath.Component.parentDir := by
  obtain ⟨lead, hlead, hrel⟩ := h.parent
  refine ⟨_, parent_plain h.ne_nil hrel, ?_, ?_⟩
  · exact normals_plain hlead _
  · intro c hc
    rcases List.mem_append.mp hc with hc | hc
    · rcases hlead with rfl | rfl
      · cases hc
      · rw [List.mem_singleton.mp hc]
        decide
    · obtain ⟨s, -, rfl⟩ := List.mem_map.mp hc
      exact ⟨UnixPath.Component.noConfusion, UnixPath.Component.noConfusion⟩

theorem plainNames_init (h : PlainRel rel) : PlainNames (segments rel).dropLast :=
  fun s hs => h.plainNames s (List.mem_of_mem_dropLast hs)

variable {t t' : FileTree} {root : Location}

private theorem named_pieces (h : PlainRel rel) (hn : Named rel) :
    ∃ init s, pieces rel = init ++ [s] ∧ above ∉ init ∧ s ≠ here ∧ s ≠ above ∧
      names init = (segments rel).dropLast ∧ segments rel = (segments rel).dropLast ++ [s] := by
  rcases h.pieces_cases with hcase | ⟨init, hpieces⟩
  · exact hcase
  · exact absurd (by rw [hpieces, List.getLast?_concat]) hn.last

private theorem named_of_metadata {e : FsEntry} (hne : e ≠ .dir)
    (h : t.metadata false root (pieces rel) = .ok e) : Named rel := by
  refine ⟨?_, fun hlast => ?_⟩
  · unfold metadata at h
    split at h
    · cases h
    · rename_i hnul
      simpa using hnul
  · obtain ⟨init, hpieces⟩ := List.getLast?_eq_some_iff.mp hlast
    rw [hpieces] at h
    exact hne (metadata_here h)

theorem metadata_named (h : PlainRel rel) (hn : Named rel)
    (hreal : t.Real root (segments rel).dropLast) :
    t.metadata false root (pieces rel) =
      match t.entry (root ++ segments rel) with
      | some e => .ok e
      | none => .error .notFound := by
  obtain ⟨init, s, hpieces, hup, hs, hs', hinit, hsegs⟩ := h.named_pieces hn
  have hnul := hn.nul
  rw [hpieces] at hnul ⊢
  have hfound := metadata_name hnul hup (by rwa [hinit]) hs hs'
  rw [hinit, List.append_assoc, ← hsegs] at hfound
  cases hentry : t.entry (root ++ segments rel) with
  | none => simp only [hfound, hentry]
  | some e => simp only [hfound, hentry]

private theorem entry_of_metadata (h : PlainRel rel) (hreal : t.Real root (segments rel).dropLast)
    {e : FsEntry} (hne : e ≠ .dir) (hentry : t.metadata false root (pieces rel) = .ok e) :
    t.entry (root ++ segments rel) = some e := by
  rw [h.metadata_named (named_of_metadata hne hentry) hreal] at hentry
  split at hentry
  · rename_i e' he'
    rw [he', Except.ok.inj hentry]
  · cases hentry

theorem read_named (h : PlainRel rel) (hn : Named rel)
    (hreal : t.Real root (segments rel).dropLast) {b : Bytes}
    (hfile : t.entry (root ++ segments rel) = some (.file b)) :
    t.read root (pieces rel) = .ok b := by
  obtain ⟨init, s, hpieces, hup, hs, hs', hinit, hsegs⟩ := h.named_pieces hn
  have hnul := hn.nul
  rw [hpieces] at hnul ⊢
  rw [hsegs, ← List.append_assoc, ← hinit] at hfile
  exact read_name hnul hup (by rwa [hinit]) hs hs' hfile

private theorem named_of_write {bytes : Bytes} (h : t.write root (pieces rel) bytes = .ok t') :
    Named rel := by
  unfold write at h
  split at h
  · cases h
  · rename_i hnul
    split at h
    · cases h
    · rename_i hlast
      exact ⟨by simpa using hnul, hlast⟩

theorem walk_named (h : PlainRel rel) (hn : Named rel) (hreal : t.Real root (segments rel).dropLast)
    (hlink : ∀ target, t.entry (root ++ segments rel) ≠ some (.link target)) :
    (t.walk true root (pieces rel)).result = .ok (root ++ segments rel) := by
  obtain ⟨init, s, hpieces, hup, hs, hs', hinit, hsegs⟩ := h.named_pieces hn
  have hplace : root ++ names init ++ [s] = root ++ segments rel := by
    rw [hinit, List.append_assoc, ← hsegs]
  rw [hpieces, ← hplace]
  apply walk_name true hup (by rwa [hinit]) hs hs'
  intro _ target
  rw [hplace]
  exact hlink target

private theorem write_named (h : PlainRel rel) (hreal : t.Real root (segments rel).dropLast)
    {bytes : Bytes} (hlink : ∀ target, t.entry (root ++ segments rel) ≠ some (.link target))
    (hwrite : t.write root (pieces rel) bytes = .ok t') :
    t' = t.set (root ++ segments rel) (some (.file bytes)) := by
  have hn := named_of_write hwrite
  unfold write at hwrite
  rw [hn.nul, if_neg hn.last, h.walk_named hn hreal hlink] at hwrite
  dsimp only at hwrite
  simp only [Bool.false_eq_true, if_false] at hwrite
  split at hwrite
  · cases hwrite
  · unfold FileTree.writeAll at hwrite
    split at hwrite
    · cases hwrite
    · exact (Except.ok.inj hwrite).symm
  · cases hwrite
  · split at hwrite
    · cases hwrite
    · exact (Except.ok.inj hwrite).symm

private theorem parents_grown {ε : Type} (h : PlainRel rel) (errs : DirErrors ε) {r : Except ε Unit}
    (hroot : t.Real [] root)
    (hrun : (match UnixPath.parent rel with
      | none => (.ok (), t)
      | some comps => FileTree.createDirs errs root t [] comps) = (r, t')) :
    Grown t t' root (segments rel).dropLast ∧ (r = .ok () → t'.Real root (segments rel).dropLast) := by
  obtain ⟨comps, hparent, hnormals, -⟩ := h.parent_eq
  rw [hparent] at hrun
  have hbase : t.Real root [] := by
    intro q hq
    rw [List.prefix_nil.mp hq, List.append_nil]
    exact hroot.whole
  have hplain : PlainNames ([] ++ UnixPath.normals comps) := by
    rw [hnormals]
    exact h.plainNames_init
  have hgrown := createDirs_grown errs hplain hbase hrun
  rw [hnormals] at hgrown
  exact hgrown

theorem parents_real {ε : Type} (h : PlainRel rel) (hn : Named rel) (errs : DirErrors ε)
    (hreal : t.Real root (segments rel).dropLast) :
    (match UnixPath.parent rel with
      | none => ((.ok (), t) : Except ε Unit × FileTree)
      | some comps => FileTree.createDirs errs root t [] comps) = (.ok (), t) := by
  obtain ⟨comps, hparent, hnormals, hcomps⟩ := h.parent_eq
  have hnul : hasNul (segments rel).dropLast = false := by
    have hpieces := hn.nul
    unfold hasNul at hpieces ⊢
    rw [List.any_eq_false] at hpieces ⊢
    intro s hs
    apply hpieces s
    rw [← names_pieces rel] at hs
    exact (List.mem_filter.mp (List.mem_of_mem_dropLast hs)).1
  rw [hparent]
  apply createDirs_real errs hcomps <;> rw [hnormals]
  · exact h.plainNames_init
  · exact hnul
  · exact hreal

end PlainRel

section

variable {rel pid : Text} {bytes : Bytes} {root : Location} {d d' : Disk}

/-- A new sibling of the destination. -/
def FreshSibling (t : FileTree) (root : Location) (rel : Text) (p : Location) : Prop :=
  t.entry p = none ∧ ∃ name, p = root ++ ((segments rel).dropLast ++ [name])

variable [Digest]

/-- What an installation does. -/
structure Installed (rel : Text) (bytes : Bytes) (root : Location) (t t' : FileTree)
    (done : Prop) : Prop where
  fresh : ∀ p, t'.entry p ≠ t.entry p → FreshSibling t root rel p
  only : done → ∀ p, p ≠ root ++ segments rel → t'.entry p = t.entry p
  holds : done → Named rel ∧ ∃ b, t'.entry (root ++ segments rel) = some (.file b) ∧
    (b = bytes ∨ t.entry (root ++ segments rel) = some (.file b) ∧
      b.length = bytes.length ∧ sha256Hex b = sha256Hex bytes)

end

/-- A place that is reached from a root by real directories alone. -/
def Below (t : FileTree) (root p : Location) : Prop :=
  ∃ ns s, p = root ++ (ns ++ [s]) ∧ t.Real root ns

section

variable {rel : Text} {root : Location} {t t' t'' : FileTree} {done : Prop}

end

section

variable [Digest] {pid : Text} {root : Location} {candidate : TestCandidate} {d d' : Disk}
  {r : Except MaterializeFailure MaterializedTest}

/-- A candidate that passes the checks made before anything is touched. -/
structure Admitted (candidate : TestCandidate) : Prop where
  size : utf8Len candidate.source ≤ Materialize.maxSourceBytes
  rel : Materialize.validateRel candidate.relPath = .ok ()

theorem Installed.real {rel : Text} {bytes : Bytes} {t t' : FileTree} {done : Prop}
    (h : Installed rel bytes root t t' done) {cur : Location} {ns : List Text}
    (hreal : t.Real cur ns) : t'.Real cur ns := by
  intro q hq
  have hdir := hreal q hq
  by_cases hp : t'.entry (cur ++ q) = t.entry (cur ++ q)
  · rw [hp, hdir]
  · rw [(h.fresh _ hp).1] at hdir
    cases hdir

end

section

variable {rel : Text} {bytes : Bytes} {root : Location} {t t' : FileTree}
  {r : Except OverlayError Unit}

/-- The file of the path, put in place. -/
def PutInPlace (t t' : FileTree) (p : Location) (bytes : Bytes) : Prop :=
  (∀ target, t.entry p ≠ some (.link target)) ∧ t.entry p ≠ some .dir ∧
    t' = t.set p (some (.file bytes))

private theorem write_put (h : PlainRel rel) (hreal : t.Real root (segments rel).dropLast)
    (hwrite : t.write root (pieces rel) bytes = .ok t')
    (hfound : t.metadata false root (pieces rel) = .error .notFound ∨
      ∃ b, t.metadata false root (pieces rel) = .ok (.file b)) :
    PutInPlace t t' (root ++ segments rel) bytes := by
  have hn := PlainRel.named_of_write hwrite
  rw [h.metadata_named hn hreal] at hfound
  have hentry : t.entry (root ++ segments rel) = none ∨
      ∃ b, t.entry (root ++ segments rel) = some (.file b) := by
    cases hentry : t.entry (root ++ segments rel) with
    | none => exact .inl rfl
    | some e =>
      rw [hentry] at hfound
      rcases hfound with hfound | ⟨b, hfound⟩
      · cases hfound
      · exact .inr ⟨b, congrArg some (Except.ok.inj hfound)⟩
  have hlink : ∀ target, t.entry (root ++ segments rel) ≠ some (.link target) := by
    intro target
    rcases hentry with hentry | ⟨b, hentry⟩ <;> simp [hentry]
  apply And.intro hlink
  apply And.intro
  · rcases hentry with hentry | ⟨b, hentry⟩ <;> simp [hentry]
  · exact h.write_named hreal hlink hwrite

/-- What the checkout's writer comes to. -/
theorem writeFile_cases (hroot : t.Real [] root) (hrun : writeFile root rel bytes t = (r, t')) :
    (∃ e, r = .error e ∧ t' = t) ∨
      PlainRel rel ∧
        ((∃ e, r = .error e ∧ Grown t t' root (segments rel).dropLast) ∨
          r = .ok () ∧ Named rel ∧ ∃ t₁, Grown t t₁ root (segments rel).dropLast ∧
            t₁.Real root (segments rel).dropLast ∧
            (t₁.entry (root ++ segments rel) = some (.file bytes) ∧ t' = t₁ ∨
              PutInPlace t₁ t' (root ++ segments rel) bytes)) := by
  unfold writeFile at hrun
  split at hrun
  · cases hrun
    exact .inl ⟨_, rfl, rfl⟩
  · rename_i hsafe
    have hplain := plainRel_of_safe (by simpa using hsafe)
    right
    apply And.intro hplain
    unfold writeConfined at hrun
    split at hrun
    · rename_i e t₁ hparents
      cases hrun
      exact .inl ⟨e, rfl, (hplain.parents_grown _ hroot hparents).1⟩
    · rename_i t₁ hparents
      obtain ⟨hgrown, hdone⟩ := hplain.parents_grown _ hroot hparents
      have hreal := hdone rfl
      have hput : ∀ {put : Except OverlayError Unit × FileTree},
          (∀ t₂, t₁.write root (pieces rel) bytes = .ok t₂ → put = (.ok (), t₂)) →
          (∀ e, t₁.write root (pieces rel) bytes = .error e → put = (.error (overlayIo e), t₁)) →
          put = (r, t') →
          (t₁.metadata false root (pieces rel) = .error .notFound ∨
            ∃ b, t₁.metadata false root (pieces rel) = .ok (.file b)) →
          (∃ e, r = .error e ∧ Grown t t' root (segments rel).dropLast) ∨
            r = .ok () ∧ Named rel ∧ ∃ t₁, Grown t t₁ root (segments rel).dropLast ∧
              t₁.Real root (segments rel).dropLast ∧
              (t₁.entry (root ++ segments rel) = some (.file bytes) ∧ t' = t₁ ∨
                PutInPlace t₁ t' (root ++ segments rel) bytes) := by
        intro put hok herror hresult hfound
        cases hwritten : t₁.write root (pieces rel) bytes with
        | ok t₂ =>
          rw [hok t₂ hwritten] at hresult
          cases hresult
          exact .inr ⟨rfl, PlainRel.named_of_write hwritten, t₁, hgrown, hreal,
            .inr (write_put hplain hreal hwritten hfound)⟩
        | error e =>
          rw [herror e hwritten] at hresult
          cases hresult
          exact .inl ⟨_, rfl, hgrown⟩
      dsimp only at hrun
      split at hrun
      · cases hrun
        exact .inl ⟨_, rfl, hgrown⟩
      · rename_i found hfound
        have hn := PlainRel.named_of_metadata (by simp) hfound
        have hentry := hplain.entry_of_metadata hreal (by simp) hfound
        split at hrun
        · rw [hplain.read_named hn hreal hentry] at hrun
          dsimp only at hrun
          split at hrun
          · rename_i hsame
            cases hrun
            exact .inr ⟨rfl, hn, _, hgrown, hreal, .inl ⟨by rw [hentry, hsame], rfl⟩⟩
          · exact hput (fun t₂ hw => by rw [hw]) (fun e hw => by rw [hw]) hrun (.inr ⟨found, hfound⟩)
        · exact hput (fun t₂ hw => by rw [hw]) (fun e hw => by rw [hw]) hrun (.inr ⟨found, hfound⟩)
      · cases hrun
        exact .inl ⟨_, rfl, hgrown⟩
      · rename_i hfound
        exact hput (fun t₂ hw => by rw [hw]) (fun e hw => by rw [hw]) hrun (.inl hfound)
      · cases hrun
        exact .inl ⟨_, rfl, hgrown⟩

end

end Jitgen.OnDisk
