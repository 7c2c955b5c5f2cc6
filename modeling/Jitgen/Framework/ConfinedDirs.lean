import Jitgen.Framework.FileTree
import Jitgen.Framework.PathJoin

/-!
# Directories below a root

Creating the directories of a path one after the other, refusing every link and everything else that
stands in a directory's place.
-/

namespace Jitgen

open Text FileTree

/-- Errors of a creation, each of the path it is about. -/
structure DirErrors (ε : Type) where
  link : Location → ε
  notDirectory : Location → ε
  io : Location → Errno → ε
  notPlain : ε

namespace FileTree

variable {ε : Type}

/-- Create the directories of components below `cur`. What was created stays when a later one
fails. -/
def createDirs (errs : DirErrors ε) (root : Location) :
    FileTree → (cur : Location) → List UnixPath.Component → Except ε Unit × FileTree
  | t, _, [] => (.ok (), t)
  | t, cur, .normal seg :: comps =>
    let cur := cur ++ [seg]
    match t.metadata false root cur with
    | .ok (.link _) => (.error (errs.link cur), t)
    | .ok .dir => createDirs errs root t cur comps
    | .ok _ => (.error (errs.notDirectory cur), t)
    | .error .notFound =>
      match t.mkdir root cur with
      | .ok t' => createDirs errs root t' cur comps
      | .error e => (.error (errs.io cur e), t)
    | .error e => (.error (errs.io cur e), t)
  | t, cur, .curDir :: comps => createDirs errs root t cur comps
  | t, _, _ :: _ => (.error errs.notPlain, t)

/-- A tree with some of the directories of a path added below a root, each below real ones. -/
structure Grown (t t' : FileTree) (root : Location) (ns : List Text) : Prop where
  refuses : t'.refuses = t.refuses
  entry : ∀ p, t'.entry p = t.entry p ∨
    (t.entry p = none ∧ ∃ q, q ≠ [] ∧ q <+: ns ∧ p = root ++ q ∧ t'.Real root q)

variable {t t' t'' : FileTree} {root : Location} {ns : List Text}

theorem Grown.refl (t : FileTree) (root : Location) (ns : List Text) : Grown t t root ns :=
  ⟨rfl, fun _ => .inl rfl⟩

theorem Grown.real (h : Grown t t' root ns) {cur : Location} {ms : List Text}
    (hreal : t.Real cur ms) : t'.Real cur ms := by
  intro q hq
  rcases h.entry (cur ++ q) with hsame | ⟨-, ms', -, -, heq, hreal'⟩
  · rw [hsame]
    exact hreal q hq
  · rw [heq]
    exact hreal'.whole

theorem Grown.trans (h : Grown t t' root ns) (h' : Grown t' t'' root ns) : Grown t t'' root ns := by
  refine ⟨h'.refuses.trans h.refuses, fun p => ?_⟩
  rcases h'.entry p with hsame | ⟨hnone, hq⟩
  · rw [hsame]
    rcases h.entry p with hsame' | ⟨hnone, q, hne, hpre, heq, hreal⟩
    · exact .inl hsame'
    · exact .inr ⟨hnone, q, hne, hpre, heq, h'.real hreal⟩
  · rcases h.entry p with hsame | ⟨-, q, -, -, heq, hreal⟩
    · exact .inr ⟨hsame.symm.trans hnone, hq⟩
    · rw [heq, hreal.whole] at hnone
      cases hnone

theorem Grown.keeps (h : Grown t t' root ns) {p : Location} {e : FsEntry}
    (hentry : t.entry p = some e) : t'.entry p = some e := by
  rcases h.entry p with hsame | ⟨hnone, -⟩
  · rw [hsame, hentry]
  · rw [hnone] at hentry
    cases hentry

/-- Names that lead down. -/
def PlainNames (ns : List Text) : Prop := ∀ s ∈ ns, s ≠ here ∧ s ≠ above

theorem PlainNames.left {ms : List Text} (h : PlainNames (ns ++ ms)) : PlainNames ns :=
  fun s hs => h s (List.mem_append_left _ hs)

theorem names_plain (h : PlainNames ns) : names ns = ns := by
  unfold names
  rw [List.filter_eq_self]
  intro s hs
  simpa using (h s hs).1

theorem above_notMem (h : PlainNames ns) : above ∉ ns := fun hmem => (h _ hmem).2 rfl

theorem metadata_next {cur : Location} {seg : Text} (hplain : PlainNames (cur ++ [seg]))
    (hreal : t.Real root cur) :
    t.metadata false root (cur ++ [seg]) =
      if hasNul (cur ++ [seg]) then .error .nulByte
      else
        match t.entry (root ++ (cur ++ [seg])) with
        | some e => .ok e
        | none => .error .notFound := by
  have hcur := hplain.left
  obtain ⟨hs, hs'⟩ := hplain seg (by simp)
  cases hnul : hasNul (cur ++ [seg]) with
  | true =>
    unfold metadata
    rw [hnul]
    rfl
  | false =>
    rw [metadata_name hnul (above_notMem hcur) (by rwa [names_plain hcur]) hs hs',
      names_plain hcur, List.append_assoc]
    rfl

theorem target_next {noName : Errno} {cur : Location} {seg : Text} {p : Location}
    (hplain : PlainNames (cur ++ [seg])) (hreal : t.Real root cur)
    (h : t.target noName root (cur ++ [seg]) = .ok p) : p = root ++ (cur ++ [seg]) := by
  have hcur := hplain.left
  obtain ⟨hs, hs'⟩ := hplain seg (by simp)
  cases hnul : hasNul (cur ++ [seg]) with
  | true =>
    unfold target at h
    rw [hnul] at h
    cases h
  | false =>
    rw [target_name noName hnul (above_notMem hcur) (by rwa [names_plain hcur]) hs hs',
      names_plain hcur, List.append_assoc] at h
    exact (Except.ok.inj h).symm

theorem mkdir_next {cur : Location} {seg : Text} (hplain : PlainNames (cur ++ [seg]))
    (hreal : t.Real root cur) (h : t.mkdir root (cur ++ [seg]) = .ok t') :
    t.entry (root ++ (cur ++ [seg])) = none ∧
      t' = t.set (root ++ (cur ++ [seg])) (some .dir) := by
  unfold mkdir at h
  split at h
  · cases h
  · rename_i p hp
    rw [target_next hplain hreal hp] at h
    split at h
    · cases h
    · rename_i hfree
      split at h
      · cases h
      · cases h
        exact ⟨by simpa using hfree, rfl⟩

theorem Real.concat {cur : Location} {seg : Text} (hreal : t.Real root cur)
    (hdir : t.entry (root ++ (cur ++ [seg])) = some .dir) : t.Real root (cur ++ [seg]) := by
  intro q hq
  rcases List.prefix_concat_iff.mp hq with rfl | hq
  · exact hdir
  · exact hreal q hq

theorem Real.set {cur : Location} {seg : Text} (hreal : t.Real root cur) :
    (t.set (root ++ (cur ++ [seg])) (some .dir)).Real root (cur ++ [seg]) := by
  apply Real.concat
  · intro q hq
    by_cases heq : root ++ q = root ++ (cur ++ [seg])
    · rw [heq]
      exact set_same _ _ _
    · rw [set_other t _ heq]
      exact hreal q hq
  · exact set_same _ _ _

theorem grown_set {cur : Location} {seg : Text} (hnext : cur ++ [seg] <+: ns)
    (hreal : t.Real root cur) (hnone : t.entry (root ++ (cur ++ [seg])) = none) :
    Grown t (t.set (root ++ (cur ++ [seg])) (some .dir)) root ns := by
  refine ⟨rfl, fun p => ?_⟩
  by_cases hp : p = root ++ (cur ++ [seg])
  · subst hp
    exact .inr ⟨hnone, _, by simp, hnext, rfl, hreal.set⟩
  · exact .inl (set_other t _ hp)

theorem append_normals (cur : Location) (seg : Text) (comps : List UnixPath.Component) :
    cur ++ UnixPath.normals (.normal seg :: comps) =
      (cur ++ [seg]) ++ UnixPath.normals comps := by
  simp [UnixPath.normals]

/-- At the next name of a way creation is refused, finds a directory, or makes one. -/
theorem createDirs_normal (errs : DirErrors ε) (comps : List UnixPath.Component) {cur : Location}
    {seg : Text} (hplain : PlainNames (cur ++ [seg])) (hreal : t.Real root cur) :
    (∃ e, createDirs errs root t cur (.normal seg :: comps) = (.error e, t)) ∨
      hasNul (cur ++ [seg]) = false ∧
        (t.entry (root ++ (cur ++ [seg])) = some .dir ∧
            createDirs errs root t cur (.normal seg :: comps) =
              createDirs errs root t (cur ++ [seg]) comps ∨
          t.entry (root ++ (cur ++ [seg])) = none ∧
            createDirs errs root t cur (.normal seg :: comps) =
              createDirs errs root (t.set (root ++ (cur ++ [seg])) (some .dir)) (cur ++ [seg])
                comps) := by
  rw [createDirs, metadata_next hplain hreal]
  cases hnul : hasNul (cur ++ [seg]) with
  | true => exact .inl ⟨_, rfl⟩
  | false =>
    simp only [Bool.false_eq_true, if_false]
    cases hentry : t.entry (root ++ (cur ++ [seg])) with
    | some e =>
      cases e with
      | dir => exact .inr ⟨trivial, .inl ⟨rfl, rfl⟩⟩
      | file b => exact .inl ⟨_, rfl⟩
      | link target => exact .inl ⟨_, rfl⟩
      | special => exact .inl ⟨_, rfl⟩
    | none =>
      cases hmkdir : t.mkdir root (cur ++ [seg]) with
      | error e => exact .inl ⟨_, rfl⟩
      | ok t₁ =>
        rw [(mkdir_next hplain hreal hmkdir).2]
        exact .inr ⟨trivial, .inr ⟨rfl, rfl⟩⟩

/-- Creating directories adds directories of the way and nothing else; where it succeeds, the whole
way is real. -/
theorem createDirs_grown (errs : DirErrors ε) {comps : List UnixPath.Component} {cur : Location}
    {r : Except ε Unit} (hplain : PlainNames (cur ++ UnixPath.normals comps))
    (hreal : t.Real root cur) (h : createDirs errs root t cur comps = (r, t')) :
    Grown t t' root (cur ++ UnixPath.normals comps) ∧
      (r = .ok () → t'.Real root (cur ++ UnixPath.normals comps)) := by
  induction comps generalizing t cur with
  | nil =>
    cases h
    refine ⟨.refl _ _ _, fun _ => ?_⟩
    simpa [UnixPath.normals] using hreal
  | cons comp comps ih =>
    cases comp with
    | rootDir =>
      cases h
      exact ⟨.refl _ _ _, fun h => by cases h⟩
    | parentDir =>
      cases h
      exact ⟨.refl _ _ _, fun h => by cases h⟩
    | curDir => exact ih hplain hreal h
    | normal seg =>
      rw [append_normals] at hplain ⊢
      rcases createDirs_normal errs comps hplain.left hreal with ⟨e, heq⟩ | ⟨_, hnext⟩
      · rw [heq] at h
        cases h
        exact ⟨.refl _ _ _, fun h => by cases h⟩
      rcases hnext with ⟨hdir, heq⟩ | ⟨hnone, heq⟩
      · rw [heq] at h
        exact ih hplain (hreal.concat hdir) h
      · rw [heq] at h
        have hgrown := grown_set (List.prefix_append _ (UnixPath.normals comps)) hreal hnone
        have ⟨hrest, hdone⟩ := ih hplain hreal.set h
        exact ⟨hgrown.trans hrest, hdone⟩

/-- Where the way is real already, nothing is to be done. -/
theorem createDirs_real (errs : DirErrors ε) {comps : List UnixPath.Component} {cur : Location}
    (hcomps : ∀ c ∈ comps, c ≠ .rootDir ∧ c ≠ .parentDir)
    (hplain : PlainNames (cur ++ UnixPath.normals comps))
    (hnul : hasNul (cur ++ UnixPath.normals comps) = false)
    (hreal : t.Real root (cur ++ UnixPath.normals comps)) :
    createDirs errs root t cur comps = (.ok (), t) := by
  induction comps generalizing cur with
  | nil => rfl
  | cons comp comps ih =>
    obtain ⟨hcomp, hrest⟩ := List.forall_mem_cons.mp hcomps
    cases comp with
    | rootDir => exact absurd rfl hcomp.1
    | parentDir => exact absurd rfl hcomp.2
    | curDir => exact ih hrest hplain hnul hreal
    | normal seg =>
      rw [append_normals] at hplain hnul hreal
      have hcur : t.Real root cur := fun q hq =>
        hreal q (hq.trans (by rw [List.append_assoc]; exact List.prefix_append _ _))
      have hnul' : hasNul (cur ++ [seg]) = false := by
        unfold hasNul at hnul ⊢
        rw [List.any_append, Bool.or_eq_false_iff] at hnul
        exact hnul.1
      have hdir := hreal (cur ++ [seg]) (List.prefix_append _ _)
      rw [createDirs, metadata_next hplain.left hcur, hnul', hdir]
      exact ih hrest hplain hnul hreal

/-- Doing it once more gives the same result and changes nothing, also after a failure. -/
theorem createDirs_again (errs : DirErrors ε) {comps : List UnixPath.Component} {cur : Location}
    {r : Except ε Unit} (hplain : PlainNames (cur ++ UnixPath.normals comps))
    (hreal : t.Real root cur) (h : createDirs errs root t cur comps = (r, t')) :
    createDirs errs root t' cur comps = (r, t') := by
  induction comps generalizing t cur with
  | nil =>
    cases h
    rfl
  | cons comp comps ih =>
    cases comp with
    | rootDir =>
      cases h
      rfl
    | parentDir =>
      cases h
      rfl
    | curDir => exact ih hplain hreal h
    | normal seg =>
      rw [append_normals] at hplain
      have hdone : ∀ {t₁ : FileTree}, hasNul (cur ++ [seg]) = false →
          t₁.Real root (cur ++ [seg]) → createDirs errs root t₁ (cur ++ [seg]) comps = (r, t') →
          createDirs errs root t' cur (.normal seg :: comps) = (r, t') := by
        intro t₁ hnul hdir hrest
        have hdir' := (createDirs_grown errs hplain hdir hrest).1.real hdir
        have hreal' : t'.Real root cur := fun q hq => hdir' q (hq.trans (List.prefix_append _ _))
        rw [createDirs, metadata_next hplain.left hreal', hnul, hdir'.whole]
        exact ih hplain hdir hrest
      rcases createDirs_normal errs comps hplain.left hreal with ⟨e, heq⟩ | ⟨hnul, hnext⟩
      · have hfirst := h
        rw [heq] at h
        cases h
        exact hfirst
      rcases hnext with ⟨hdir, heq⟩ | ⟨_, heq⟩
      · rw [heq] at h
        exact hdone hnul (hreal.concat hdir) h
      · rw [heq] at h
        exact hdone hnul hreal.set h

end FileTree

end Jitgen
