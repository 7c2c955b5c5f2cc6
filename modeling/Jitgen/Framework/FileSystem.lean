import Jitgen.Framework.ConfinedDirs

/-!
# File systems

Trees in which every entry has a name and stands in a directory, and how the resolution of a path
goes on from where one of its prefixes leads.
-/

namespace Jitgen

open Text

/-- A name that an entry may have. -/
structure FileName (s : Text) : Prop extends UnixPath.PlainName s where
  no_nul : '\x00' ∉ s

structure FileSystem where
  tree : FileTree
  root : tree.entry [] = some .dir
  below : ∀ p s e, tree.entry (p ++ [s]) = some e → tree.entry p = some .dir ∧ FileName s

namespace FileTree

/-- A tree in which directories were added to another. -/
def Extends (t t' : FileTree) : Prop :=
  ∀ p, t'.entry p = t.entry p ∨ t.entry p = none ∧ t'.entry p = some .dir

theorem Extends.refl (t : FileTree) : Extends t t := fun _ => .inl rfl

theorem Extends.some {t t' : FileTree} (h : Extends t t') {p : Location} {e : FsEntry}
    (hentry : t.entry p = some e) : t'.entry p = some e := by
  rcases h p with hsame | ⟨hnone, -⟩
  · rw [hsame, hentry]
  · rw [hnone] at hentry
    cases hentry

def Step.place : Step → Location
  | .entry p => p
  | .link p => p
  | .up p => p

/-- A resolution that goes through some steps first. -/
def Walk.after (ss : List Step) (w : Walk) : Walk := { w with steps := ss ++ w.steps }

theorem Walk.after_cons (s : Step) (ss : List Step) (w : Walk) :
    (w.after ss).cons s = w.after (s :: ss) := rfl

section

variable {jump jump' : Location → List Text → Walk} {t t' : FileTree} {cur loc : Location}
  {ss : List Step}

/-- From where a prefix leads, what follows it is resolved. -/
theorem walkWith_append {K : (List Text → Walk) → Prop} (hK : K (walkWith jump' t' true loc))
    (hext : Extends t t') (hloc : t.entry loc ≠ none)
    (hjump : ∀ base ps ss, jump base ps = ⟨ss, .ok loc⟩ →
      ∃ k, K k ∧ ∀ post, jump' base (ps ++ post) = (k post).after ss)
    {pre : List Text} (h : walkWith jump t true cur pre = ⟨ss, .ok loc⟩) :
    ∃ k, K k ∧ ∀ post, walkWith jump' t' true cur (pre ++ post) = (k post).after ss := by
  induction pre generalizing cur ss with
  | nil =>
    cases h
    exact ⟨_, hK, fun post => rfl⟩
  | cons s pre ih =>
    rw [walkWith] at h
    split at h
    · rename_i hdir
      have hdir' := hext.some hdir
      split at h
      · rename_i hs
        obtain ⟨k, hk, hpost⟩ := ih h
        refine ⟨k, hk, fun post => ?_⟩
        rw [List.cons_append, walkWith, if_pos hdir', if_pos hs, hpost]
      · rename_i hs
        split at h
        · rename_i hup
          cases hwalk : walkWith jump t true cur.dropLast pre with
          | mk steps result =>
            rw [hwalk] at h
            cases h
            obtain ⟨k, hk, hpost⟩ := ih hwalk
            refine ⟨k, hk, fun post => ?_⟩
            rw [List.cons_append, walkWith, if_pos hdir', if_neg hs, if_pos hup, hpost]
            rfl
        · rename_i hup
          dsimp only at h
          split at h
          · rename_i target htarget
            simp only [Bool.true_eq_false, and_false, if_false] at h
            cases hwalk : jump (if UnixPath.isAbsolute target then [] else cur)
                (pieces target ++ pre) with
            | mk steps result =>
              rw [hwalk] at h
              cases h
              obtain ⟨k, hk, hpost⟩ := hjump _ _ _ hwalk
              refine ⟨k, hk, fun post => ?_⟩
              rw [List.cons_append, walkWith, if_pos hdir', if_neg hs, if_neg hup]
              simp only [hext.some htarget, Bool.true_eq_false, and_false, if_false]
              rw [← List.append_assoc, hpost]
              rfl
          · rename_i e hlink hentry
            cases hwalk : walkWith jump t true (cur ++ [s]) pre with
            | mk steps result =>
              rw [hwalk] at h
              cases h
              obtain ⟨k, hk, hpost⟩ := ih hwalk
              refine ⟨k, hk, fun post => ?_⟩
              rw [List.cons_append, walkWith, if_pos hdir', if_neg hs, if_neg hup]
              cases e with
              | link target => exact absurd rfl (hlink target)
              | dir => simp only [hext.some hentry, hpost]; rfl
              | file b => simp only [hext.some hentry, hpost]; rfl
              | special => simp only [hext.some hentry, hpost]; rfl
          · rename_i hnone
            split at h
            · cases h
              exact absurd hnone hloc
            · cases h
    · cases h

theorem walkN_append (hext : Extends t t') (hloc : t.entry loc ≠ none) {n : Nat} {pre : List Text}
    (h : walkN t true n cur pre = ⟨ss, .ok loc⟩) :
    ∃ n', ∀ post, walkN t' true n cur (pre ++ post) = (walkN t' true n' loc post).after ss := by
  have hstep : ∀ n, (∀ {cur pre ss}, walkN t true n cur pre = ⟨ss, .ok loc⟩ →
      ∃ k, (∃ n', k = walkN t' true n' loc) ∧
        ∀ post, walkN t' true n cur (pre ++ post) = (k post).after ss) := by
    intro n
    induction n with
    | zero =>
      intro cur pre ss h
      apply walkWith_append ⟨0, rfl⟩ hext hloc _ h
      intro base ps ss hjump
      cases hjump
    | succ n ih =>
      intro cur pre ss h
      exact walkWith_append ⟨n + 1, rfl⟩ hext hloc (fun base ps ss hjump => ih hjump) h
  obtain ⟨k, ⟨n', rfl⟩, hpost⟩ := hstep n h
  exact ⟨n', hpost⟩

end

section

variable {jump : Location → List Text → Walk} {t : FileTree} {cur : Location} {ns : List Text}

theorem walkWith_entries (follow : Bool) (hplain : PlainNames ns) (hreal : t.Real cur ns) :
    ∃ ss, (∀ s ∈ ss, ∃ p, s = .entry p) ∧ ∀ rest, walkWith jump t follow cur (ns ++ rest) =
      (walkWith jump t follow (cur ++ ns) rest).after ss := by
  induction ns generalizing cur with
  | nil => exact ⟨[], by simp, fun rest => by rw [List.append_nil]; rfl⟩
  | cons s ns ih =>
    obtain ⟨⟨hs, hs'⟩, hplain'⟩ := List.forall_mem_cons.mp hplain
    obtain ⟨ss, hss, hrest⟩ := ih hplain' hreal.tail
    refine ⟨.entry (cur ++ [s]) :: ss, List.forall_mem_cons.mpr ⟨⟨_, rfl⟩, hss⟩, fun rest => ?_⟩
    rw [List.cons_append, walkWith, if_pos hreal.base, if_neg hs, if_neg hs']
    simp only [hreal.tail.base]
    rw [hrest, Walk.after_cons, List.append_assoc]
    rfl

/-- Where no link stands, names lead down and nowhere else. -/
theorem walkWith_down {trail : List Text} (htrail : trail = [] ∨ trail = [here])
    (hplain : PlainNames ns)
    (hlink : ∀ q target, q ≠ [] → q <+: ns → t.entry (cur ++ q) ≠ some (.link target)) :
    (∀ s ∈ (walkWith jump t true cur (ns ++ trail)).steps,
        ∃ q, q <+: ns ∧ s = .entry (cur ++ q)) ∧
      ∀ p, (walkWith jump t true cur (ns ++ trail)).result = .ok p → p = cur ++ ns := by
  induction ns generalizing cur with
  | nil =>
    rcases htrail with rfl | rfl
    · constructor
      · intro s hs
        cases hs
      · intro p hp
        rw [List.append_nil]
        exact (Except.ok.inj hp).symm
    · rw [List.nil_append, walkWith]
      split
      · constructor
        · intro s hs
          cases hs
        · intro p hp
          rw [List.append_nil]
          exact (Except.ok.inj hp).symm
      · constructor
        · intro s hs
          cases hs
        · intro p hp
          cases hp
  | cons s ns ih =>
    obtain ⟨⟨hs, hs'⟩, hplain'⟩ := List.forall_mem_cons.mp hplain
    have hnext : ∀ target, t.entry (cur ++ [s]) ≠ some (.link target) := fun target =>
      hlink [s] target (by simp) (by simp)
    have hrest := @ih (cur ++ [s]) hplain' fun q target hne hq => by
      rw [List.append_assoc]
      exact hlink (s :: q) target (by simp) ((List.prefix_cons_inj s).mpr hq)
    rw [List.cons_append, walkWith, if_neg hs, if_neg hs']
    split
    · dsimp only
      split
      · rename_i target htarget
        exact absurd htarget (hnext target)
      · constructor
        · intro s' hs'
          rcases List.mem_cons.mp hs' with rfl | hs'
          · exact ⟨[s], by simp, rfl⟩
          · obtain ⟨q, hq, rfl⟩ := hrest.1 s' hs'
            exact ⟨s :: q, (List.prefix_cons_inj s).mpr hq, by rw [List.append_assoc]; rfl⟩
        · intro p hp
          rw [hrest.2 p hp, List.append_assoc]
          rfl
      · constructor
        · intro s hs
          cases hs
        · intro p hp
          split at hp
          · rename_i hnil
            rw [(List.append_eq_nil_iff.mp hnil).1]
            exact (Except.ok.inj hp).symm
          · cases hp
    · constructor
      · intro s hs
        cases hs
      · intro p hp
        cases hp

end

/-- Pieces of which some that stand for the place itself were dropped. -/
inductive Thinned : List Text → List Text → Prop
  | nil : Thinned [] []
  | drop {ps ps' : List Text} : Thinned ps ps' → Thinned (here :: ps) ps'
  | keep (s : Text) {ps ps' : List Text} : Thinned ps ps' → Thinned (s :: ps) (s :: ps')

theorem Thinned.refl (ps : List Text) : Thinned ps ps := by
  induction ps with
  | nil => exact .nil
  | cons s ps ih => exact .keep s ih

theorem Thinned.append {ps ps' qs qs' : List Text} (h : Thinned ps ps') (hq : Thinned qs qs') :
    Thinned (ps ++ qs) (ps' ++ qs') := by
  induction h with
  | nil => exact hq
  | drop _ ih => exact .drop ih
  | keep s _ ih => exact .keep s ih

theorem thinned_names (ps : List Text) : Thinned ps (names ps) := by
  induction ps with
  | nil => exact .nil
  | cons s ps ih =>
    by_cases hs : s = here
    · rw [hs, names_here]
      exact .drop ih
    · rw [names_name hs]
      exact .keep s ih

theorem Thinned.nil_right {ps : List Text} (h : Thinned [] ps) : ps = [] := by
  cases h
  rfl

/-- The same steps; what a resolution gives is given by the other one too. -/
def Walk.Agrees (w w' : Walk) : Prop :=
  w.steps = w'.steps ∧ ∀ p, w.result = .ok p → w'.result = .ok p

theorem Walk.Agrees.cons {w w' : Walk} (h : w.Agrees w') (s : Step) : (w.cons s).Agrees (w'.cons s) :=
  ⟨congrArg (s :: ·) h.1, h.2⟩

theorem Walk.Agrees.after {w w' : Walk} (h : w.Agrees w') (ss : List Step) :
    (w.after ss).Agrees (w'.after ss) := ⟨congrArg (ss ++ ·) h.1, h.2⟩

theorem walkWith_thinned {jump : Location → List Text → Walk} {t : FileTree} {cur : Location}
    (hjump : ∀ base ps ps', Thinned ps ps' → (jump base ps).Agrees (jump base ps'))
    {ps ps' : List Text} (h : Thinned ps ps') :
    (walkWith jump t true cur ps).Agrees (walkWith jump t true cur ps') := by
  induction h generalizing cur with
  | nil => exact ⟨rfl, fun _ hp => hp⟩
  | drop _ ih =>
    rw [walkWith, if_pos rfl]
    split
    · exact ih
    · rename_i hdir
      refine ⟨?_, fun p hp => by cases hp⟩
      rename_i ps ps' _
      cases ps' with
      | nil => rfl
      | cons s ps' =>
        rw [walkWith, if_neg hdir]
  | keep s hthin ih =>
    rename_i ps ps'
    rw [walkWith, walkWith]
    split
    · split
      · exact ih
      · split
        · exact ih.cons _
        · dsimp only
          split
          · simp only [Bool.true_eq_false, and_false, if_false]
            exact (hjump _ _ _ (.append (.refl _) hthin)).cons _
          · exact ih.cons _
          · refine ⟨rfl, fun p hp => ?_⟩
            dsimp only at hp ⊢
            split at hp
            · rename_i hnil
              subst hnil
              rw [hthin.nil_right, if_pos rfl]
              exact hp
            · cases hp
    · exact ⟨rfl, fun p hp => by cases hp⟩

theorem walkN_thinned {t : FileTree} {n : Nat} {cur : Location} {ps ps' : List Text}
    (h : Thinned ps ps') : (walkN t true n cur ps).Agrees (walkN t true n cur ps') := by
  induction n generalizing cur ps ps' with
  | zero => exact walkWith_thinned (fun _ _ _ _ => ⟨rfl, fun _ hp => hp⟩) h
  | succ n ih => exact walkWith_thinned (fun base _ _ h => @ih base _ _ h) h

def StrictlyInside (base p : Location) : Prop := base <+: p ∧ p ≠ base

instance (base p : Location) : Decidable (StrictlyInside base p) := inferInstanceAs (Decidable (_ ∧ _))

/-- A step other than to an entry of the directory that is stood in. -/
def Step.turns : Step → Bool
  | .entry _ => false
  | .link _ => true
  | .up _ => true

/-- A link is followed, or a parent gone to, inside a directory. -/
def Detour (base : Location) (ss : List Step) : Prop :=
  ∃ s ∈ ss, s.turns = true ∧ StrictlyInside base s.place

instance (base : Location) (ss : List Step) : Decidable (Detour base ss) :=
  inferInstanceAs (Decidable (∃ s ∈ ss, _))

theorem StrictlyInside.append {base p : Location} (h : StrictlyInside base p) (q : Location) :
    StrictlyInside base (p ++ q) := by
  obtain ⟨hpre, hne⟩ := h
  refine ⟨hpre.trans (List.prefix_append p q), fun heq => hne ?_⟩
  have hlen := congrArg List.length heq
  have hle := hpre.length_le
  rw [List.length_append] at hlen
  exact (hpre.eq_of_length (by omega)).symm

theorem Detour.cons {base : Location} {ss : List Step} (h : Detour base ss) (s : Step) :
    Detour base (s :: ss) := by
  obtain ⟨s', hs', hturn⟩ := h
  exact ⟨s', List.mem_cons_of_mem s hs', hturn⟩

/-- A resolution that is inside at some time. -/
def Visits (base cur : Location) (ss : List Step) : Prop :=
  StrictlyInside base cur ∨ ∃ s ∈ ss, StrictlyInside base s.place

theorem Visits.turned {base cur cur' : Location} {s : Step} {ss : List Step}
    (h : Visits base cur (s :: ss)) (hturn : s.turns = true)
    (hplace : StrictlyInside base cur → StrictlyInside base s.place)
    (hdetour : ¬ Detour base (s :: ss)) : Visits base cur' ss := by
  have hs : ¬ StrictlyInside base s.place := fun hs => hdetour ⟨s, List.mem_cons_self, hturn, hs⟩
  rcases h with hcur | ⟨s', hs', hin⟩
  · exact absurd (hplace hcur) hs
  · rcases List.mem_cons.mp hs' with rfl | hs'
    · exact absurd hin hs
    · exact .inr ⟨s', hs', hin⟩

/-- Once inside, a resolution stays there unless it takes a detour. -/
theorem walkWith_stays {jump : Location → List Text → Walk} {t : FileTree} {base : Location}
    (hjump : ∀ {cur ps ss loc}, jump cur ps = ⟨ss, .ok loc⟩ → ¬ Detour base ss →
      Visits base cur ss → StrictlyInside base loc)
    {cur : Location} {ps : List Text} {ss : List Step} {loc : Location}
    (h : walkWith jump t true cur ps = ⟨ss, .ok loc⟩) (hdetour : ¬ Detour base ss)
    (hvisits : Visits base cur ss) : StrictlyInside base loc := by
  induction ps generalizing cur ss with
  | nil =>
    cases h
    rcases hvisits with hcur | ⟨s, hs, -⟩
    · exact hcur
    · cases hs
  | cons s ps ih =>
    rw [walkWith] at h
    split at h
    · split at h
      · exact ih h hdetour hvisits
      · split at h
        · cases hwalk : walkWith jump t true cur.dropLast ps with
          | mk steps result =>
            rw [hwalk] at h
            cases h
            exact ih hwalk (fun hd => hdetour (hd.cons _)) (hvisits.turned rfl id hdetour)
        · dsimp only at h
          split at h
          · rename_i target htarget
            simp only [Bool.true_eq_false, and_false, if_false] at h
            cases hwalk : jump (if UnixPath.isAbsolute target then [] else cur)
                (pieces target ++ ps) with
            | mk steps result =>
              rw [hwalk] at h
              cases h
              apply hjump hwalk fun hd => hdetour (hd.cons _)
              exact hvisits.turned rfl (fun hcur => hcur.append [s]) hdetour
          · cases hwalk : walkWith jump t true (cur ++ [s]) ps with
            | mk steps result =>
              rw [hwalk] at h
              cases h
              apply ih hwalk fun hd => hdetour (hd.cons _)
              rcases hvisits with hcur | ⟨s', hs', hin⟩
              · exact .inl (hcur.append [s])
              · rcases List.mem_cons.mp hs' with rfl | hs'
                · exact .inl hin
                · exact .inr ⟨s', hs', hin⟩
          · split at h
            · cases h
              rcases hvisits with hcur | ⟨s', hs', -⟩
              · exact hcur.append [s]
              · cases hs'
            · cases h
    · cases h

theorem walkN_stays {t : FileTree} {base : Location} {n : Nat} {cur : Location} {ps : List Text}
    {ss : List Step} {loc : Location} (h : walkN t true n cur ps = ⟨ss, .ok loc⟩)
    (hdetour : ¬ Detour base ss) (hvisits : Visits base cur ss) : StrictlyInside base loc := by
  induction n generalizing cur ps ss loc with
  | zero =>
    apply walkWith_stays (fun hjump => ?_) h hdetour hvisits
    cases hjump
  | succ n ih => exact walkWith_stays (fun hjump => ih hjump) h hdetour hvisits

/-- The place that an absolute path leads to, where something is there. -/
def canonicalize (t : FileTree) (ps : List Text) : Option Location :=
  if hasNul ps then none
  else
    match (t.walk true [] ps).result with
    | .error _ => none
    | .ok p => if (t.entry p).isSome then some p else none

theorem canonicalize_walk {t : FileTree} {ps : List Text} {loc : Location}
    (h : t.canonicalize ps = some loc) :
    ∃ ss, t.walk true [] ps = ⟨ss, .ok loc⟩ ∧ t.entry loc ≠ none := by
  unfold canonicalize at h
  split at h
  · cases h
  · split at h
    · cases h
    · rename_i p hp
      split at h
      · rename_i hsome
        cases h
        refine ⟨_, by rw [← hp], ?_⟩
        intro hnone
        rw [hnone] at hsome
        cases hsome
      · cases h

theorem canonicalize_of_walk {t : FileTree} {ps : List Text} {ss : List Step} {loc : Location}
    {e : FsEntry} (hnul : hasNul ps = false) (hwalk : t.walk true [] ps = ⟨ss, .ok loc⟩)
    (hentry : t.entry loc = some e) : t.canonicalize ps = some loc := by
  unfold canonicalize
  simp [hnul, hwalk, hentry]

theorem metadata_isOk (t : FileTree) (ps : List Text) :
    (t.metadata true [] ps).isOk = (t.canonicalize ps).isSome := by
  unfold metadata canonicalize
  split
  · rfl
  · cases (t.walk true [] ps).result with
    | error e => rfl
    | ok p =>
      dsimp only
      cases t.entry p <;> rfl

end FileTree

namespace FileSystem

variable (fs : FileSystem)

/-- Every way to an entry is real, and made of names. -/
theorem real_of_entry {p : Location} {e : FsEntry} (h : fs.tree.entry p = some e) :
    (∀ q, q <+: p → q ≠ p → fs.tree.entry q = some .dir) ∧ ∀ s ∈ p, FileName s := by
  induction p using List.reverseRecOn generalizing e with
  | nil =>
    constructor
    · intro q hq hne
      exact absurd (List.prefix_nil.mp hq) hne
    · intro s hs
      cases hs
  | append_singleton p s ih =>
    obtain ⟨hdir, hname⟩ := fs.below p s e h
    obtain ⟨hreal, hnames⟩ := ih hdir
    constructor
    · intro q hq hne
      rcases List.prefix_concat_iff.mp hq with rfl | hq
      · exact absurd rfl hne
      · by_cases heq : q = p
        · rw [heq, hdir]
        · exact hreal q hq heq
    · intro s' hs'
      rcases List.mem_append.mp hs' with hs' | hs'
      · exact hnames s' hs'
      · rw [List.mem_singleton.mp hs']
        exact hname

theorem real_of_dir {p : Location} (h : fs.tree.entry p = some .dir) : fs.tree.Real [] p := by
  intro q hq
  by_cases heq : q = p
  · rw [heq]
    exact h
  · exact (fs.real_of_entry h).1 q hq heq

theorem plainNames {p : Location} {e : FsEntry} (h : fs.tree.entry p = some e) :
    FileTree.PlainNames p := fun s hs =>
  have hname := (fs.real_of_entry h).2 s hs
  ⟨hname.ne_dot, hname.ne_up⟩

theorem dir_of_below {p : Location} {s : Text} {e : FsEntry}
    (h : fs.tree.entry (p ++ [s]) = some e) : fs.tree.entry p = some .dir := (fs.below p s e h).1

/-- Following links from a directory never ends at one. -/
theorem walkWith_not_link {jump : Location → List Text → FileTree.Walk}
    (hjump : ∀ base ps p, fs.tree.entry base = some .dir → (jump base ps).result = .ok p →
      ∀ target, fs.tree.entry p ≠ some (.link target))
    {ps : List Text} {cur p : Location} (hcur : ∀ target, fs.tree.entry cur ≠ some (.link target))
    (h : (FileTree.walkWith jump fs.tree true cur ps).result = .ok p) :
    ∀ target, fs.tree.entry p ≠ some (.link target) := by
  induction ps generalizing cur with
  | nil =>
    cases h
    exact hcur
  | cons s ps ih =>
    rw [FileTree.walkWith] at h
    split at h
    · rename_i hdir
      have hup : ∀ target, fs.tree.entry cur.dropLast ≠ some (.link target) := by
        intro target hlink
        induction cur using List.reverseRecOn with
        | nil => exact hcur target hlink
        | append_singleton q s _ =>
          rw [List.dropLast_concat, fs.dir_of_below hdir] at hlink
          cases hlink
      split at h
      · exact ih hcur h
      · split at h
        · exact ih hup h
        · dsimp only at h
          split at h
          · rename_i link hlink
            rw [if_neg (by simp)] at h
            apply hjump _ _ _ _ h
            split
            · exact fs.root
            · exact hdir
          · rename_i e hlink hentry
            apply ih _ h
            intro target heq
            rw [hentry] at heq
            exact hlink target (Option.some.inj heq)
          · rename_i hnone
            split at h
            · cases h
              rw [hnone]
              intro target heq
              cases heq
            · cases h
    · cases h

theorem walkN_not_link {n : Nat} {ps : List Text} {cur p : Location}
    (hcur : ∀ target, fs.tree.entry cur ≠ some (.link target))
    (h : (FileTree.walkN fs.tree true n cur ps).result = .ok p) :
    ∀ target, fs.tree.entry p ≠ some (.link target) := by
  induction n generalizing cur ps p with
  | zero => exact fs.walkWith_not_link (fun _ _ _ _ h => by cases h) hcur h
  | succ n ih =>
    apply fs.walkWith_not_link (fun base ps p hdir hwalk => ?_) hcur h
    apply ih _ hwalk
    intro target heq
    rw [hdir] at heq
    cases heq

theorem entry_canonicalize {ps : List Text} {p : Location}
    (h : fs.tree.canonicalize ps = some p) :
    ∃ e, fs.tree.entry p = some e ∧ ∀ target, e ≠ .link target := by
  obtain ⟨ss, hwalk, hentry⟩ := FileTree.canonicalize_walk h
  obtain ⟨e, he⟩ := Option.ne_none_iff_exists'.mp hentry
  refine ⟨e, he, fun target heq => ?_⟩
  have hroot : ∀ target, fs.tree.entry [] ≠ some (.link target) := by
    intro target hlink
    rw [fs.root] at hlink
    cases hlink
  have hresult : (FileTree.walkN fs.tree true FileTree.maxLinks [] ps).result = .ok p := congrArg FileTree.Walk.result hwalk
  exact fs.walkN_not_link hroot hresult target (by rw [he, heq])

/-- The system of some entries, each named and in a directory. -/
def ofList (es : List (Location × FsEntry)) (hroot : es.lookup [] = some .dir)
    (hbelow : ∀ x ∈ es, x.1 = [] ∨ es.lookup x.1.dropLast = some .dir ∧
      (x.1.getLastD [] ∉ [[], ("." : Text), ".."] ∧
        (x.1.getLastD []).all fun c => c ≠ '/' ∧ c ≠ '\x00')) : FileSystem where
  tree := ⟨fun p => es.lookup p, fun _ _ => false⟩
  root := hroot
  below := by
    intro p s e hentry
    obtain ⟨l₁, l₂, heq, -⟩ := List.lookup_eq_some_iff.mp hentry
    have hmem : (p ++ [s], e) ∈ es := by
      rw [heq]
      exact List.mem_append_right _ List.mem_cons_self
    have hcase := hbelow _ hmem
    simp only [List.append_eq_nil_iff, List.cons_ne_self, and_false, false_or,
      List.dropLast_concat, List.getLastD_concat, List.mem_cons, List.not_mem_nil, or_false,
      not_or, List.all_eq_true, decide_eq_true_eq] at hcase
    obtain ⟨hdir, ⟨hne, hdot, hup⟩, hchars⟩ := hcase
    exact ⟨hdir, ⟨hne, hdot, hup, fun h => (hchars _ h).1 rfl⟩, fun h => (hchars _ h).2 rfl⟩

end FileSystem

end Jitgen
