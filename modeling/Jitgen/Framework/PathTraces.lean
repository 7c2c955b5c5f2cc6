import Jitgen.Framework.FileSystem

/-!
# Path traces

Where a path leads once directories are made at the names it is missing, told from its text and from
the links that are there.
-/

namespace Jitgen

open Text

instance (s : Text) : Decidable (FileName s) :=
  decidable_of_iff (s ≠ [] ∧ s ≠ "." ∧ s ≠ ".." ∧ '/' ∉ s ∧ '\x00' ∉ s)
    ⟨fun ⟨hnil, hdot, hup, hslash, hnul⟩ => ⟨⟨hnil, hdot, hup, hslash⟩, hnul⟩,
      fun h => ⟨h.ne_nil, h.ne_dot, h.ne_up, h.no_slash, h.no_nul⟩⟩

namespace FileTree

/-- Trace pieces from a place as `walkWith` resolves them; a name that is missing stands for the
directory that is made there. -/
def traceWith (jump : Location → List Text → Walk) (t : FileTree) : Location → List Text → Walk
  | cur, [] => ⟨[], .ok cur⟩
  | cur, s :: rest =>
    if t.entry cur = none ∨ t.entry cur = some .dir then
      if s = here then traceWith jump t cur rest
      else if s = above then (traceWith jump t cur.dropLast rest).cons (.up cur)
      else
        let next := cur ++ [s]
        match t.entry next with
        | some (.link target) =>
          let base := if UnixPath.isAbsolute target then [] else cur
          (jump base (pieces target ++ rest)).cons (.link next)
        | some _ => (traceWith jump t next rest).cons (.entry next)
        | none =>
          if FileName s then (traceWith jump t next rest).cons (.entry next)
          else ⟨[], if rest = [] then .ok next else .error .notFound⟩
    else ⟨[], .error .notADirectory⟩

def traceN (t : FileTree) : Nat → Location → List Text → Walk
  | 0 => traceWith (fun _ _ => ⟨[], .error .loop⟩) t
  | n + 1 => traceWith (traceN t n) t

def trace (t : FileTree) (base : Location) (ps : List Text) : Walk := traceN t maxLinks base ps

/-- A resolution that breaks off on the way of another one, or gives what that one gives. -/
def Walk.Below (w w' : Walk) : Prop :=
  w.steps <+: w'.steps ∧ ∀ p, w.result = .ok p → w'.result = .ok p

theorem Walk.Below.refl (w : Walk) : w.Below w := ⟨List.prefix_refl _, fun _ h => h⟩

theorem Walk.Below.cons {w w' : Walk} (h : w.Below w') (s : Step) : (w.cons s).Below (w'.cons s) :=
  ⟨(List.prefix_cons_inj s).mpr h.1, h.2⟩

section

variable {t : FileTree} {fs' : FileSystem} {jump jump' : Location → List Text → Walk}

/-- Whichever directories are made, a path is resolved on the way of its trace. -/
theorem walkWith_traced (hext : Extends t fs'.tree)
    (hjump : ∀ base ps, (jump base ps).Below (jump' base ps)) {cur : Location} {ps : List Text} :
    (walkWith jump fs'.tree true cur ps).Below (traceWith jump' t cur ps) := by
  induction ps generalizing cur with
  | nil => exact .refl _
  | cons s ps ih =>
    rw [walkWith, traceWith]
    by_cases hdir : fs'.tree.entry cur = some .dir
    · have hcur : t.entry cur = none ∨ t.entry cur = some .dir := by
        rcases hext cur with hsame | ⟨hnone, -⟩
        · exact .inr (hsame ▸ hdir)
        · exact .inl hnone
      rw [if_pos hdir, if_pos hcur]
      split
      · exact ih
      · split
        · exact ih.cons _
        · dsimp only
          cases hnext : fs'.tree.entry (cur ++ [s]) with
          | none =>
            have hnone : t.entry (cur ++ [s]) = none := by
              rcases hext (cur ++ [s]) with hsame | ⟨hnone, -⟩
              · rw [← hsame, hnext]
              · exact hnone
            simp only [hnone]
            by_cases hname : FileName s
            · rw [if_pos hname]
              refine ⟨List.nil_prefix, fun p hp => ?_⟩
              by_cases hnil : ps = []
              · rw [if_pos hnil] at hp
                rw [hnil]
                exact hp
              · rw [if_neg hnil] at hp
                cases hp
            · rw [if_neg hname]
              exact .refl _
          | some e =>
            rcases hext (cur ++ [s]) with hsame | ⟨hnone, hmade⟩
            · rw [← hsame, hnext]
              cases e with
              | link target =>
                simp only [Bool.true_eq_false, and_false, if_false]
                exact (hjump _ _).cons _
              | dir => exact ih.cons _
              | file b => exact ih.cons _
              | special => exact ih.cons _
            · rw [hmade] at hnext
              cases hnext
              simp only [hnone]
              rw [if_pos (fs'.below cur s .dir hmade).2]
              exact ih.cons _
    · rw [if_neg hdir]
      exact ⟨List.nil_prefix, fun p hp => by cases hp⟩

theorem walkN_traced (hext : Extends t fs'.tree) {n : Nat} {cur : Location} {ps : List Text} :
    (walkN fs'.tree true n cur ps).Below (traceN t n cur ps) := by
  induction n generalizing cur ps with
  | zero => exact walkWith_traced hext fun _ _ => .refl _
  | succ n ih => exact walkWith_traced hext fun _ _ => ih

end

/-- A directory stands or may be made here. -/
def Room (t : FileTree) (p : Location) : Prop :=
  (∀ s ∈ p, FileName s) ∧ ∀ q ∈ p.inits, t.entry q = none ∨ t.entry q = some .dir

instance (t : FileTree) (p : Location) : Decidable (t.Room p) := inferInstanceAs (Decidable (_ ∧ _))

theorem Room.parent {t : FileTree} {p : Location} {s : Text} (h : t.Room (p ++ [s])) :
    t.Room p := by
  refine ⟨fun s' hs' => h.1 s' (List.mem_append_left _ hs'), fun q hq => h.2 q ?_⟩
  rw [List.mem_inits] at hq ⊢
  exact hq.trans (List.prefix_append _ _)

/-- A tree with every directory made that may be made. -/
def filled (t : FileTree) : FileTree :=
  { t with entry := fun p => (t.entry p).or (if t.Room p then some .dir else none) }

theorem filled_some {t : FileTree} {p : Location} {e : FsEntry} (h : t.entry p = some e) :
    t.filled.entry p = some e := by
  simp only [filled, h, Option.some_or]

theorem filled_none {t : FileTree} {p : Location} (h : t.entry p = none) :
    t.filled.entry p = if t.Room p then some .dir else none := by
  simp only [filled, h, Option.none_or]

end FileTree

namespace FileSystem

open FileTree

variable (fs : FileSystem)

theorem room_of_dir {p : Location} (h : fs.tree.filled.entry p = some .dir) : fs.tree.Room p := by
  cases hentry : fs.tree.entry p with
  | none =>
    rw [filled_none hentry] at h
    by_contra hroom
    rw [if_neg hroom] at h
    cases h
  | some e =>
    rw [filled_some hentry] at h
    cases h
    refine ⟨(fs.real_of_entry hentry).2, fun q hq => .inr ?_⟩
    exact fs.real_of_dir hentry q ((List.mem_inits _ _).mp hq)

theorem filled_of_room {p : Location} (h : fs.tree.Room p) :
    fs.tree.filled.entry p = some .dir := by
  rcases h.2 p ((List.mem_inits _ _).mpr (List.prefix_refl p)) with hnone | hdir
  · rw [filled_none hnone, if_pos h]
  · exact filled_some hdir

def filled : FileSystem where
  tree := fs.tree.filled
  root := filled_some fs.root
  below p s e h := by
    cases hentry : fs.tree.entry (p ++ [s]) with
    | some e' =>
      obtain ⟨hdir, hname⟩ := fs.below p s e' hentry
      exact ⟨filled_some hdir, hname⟩
    | none =>
      rw [filled_none hentry] at h
      by_cases hroom : fs.tree.Room (p ++ [s])
      · exact ⟨fs.filled_of_room hroom.parent, hroom.1 s (by simp)⟩
      · rw [if_neg hroom] at h
        cases h

theorem extends_filled : Extends fs.tree fs.filled.tree := by
  intro p
  cases hentry : fs.tree.entry p with
  | some e => exact .inl (filled_some hentry)
  | none =>
    by_cases hroom : fs.tree.Room p
    · exact .inr ⟨rfl, fs.filled_of_room hroom⟩
    · exact .inl ((filled_none hentry).trans (if_neg hroom))

theorem filled_next {cur : Location} {s : Text} (hcur : fs.tree.filled.entry cur = some .dir)
    (hnone : fs.tree.entry (cur ++ [s]) = none) :
    fs.tree.filled.entry (cur ++ [s]) = if FileName s then some .dir else none := by
  have hroom := fs.room_of_dir hcur
  rw [filled_none hnone]
  congr 1
  refine propext ⟨fun h => h.1 s (by simp), fun hs => ⟨?_, ?_⟩⟩
  · intro s' hs'
    rcases List.mem_append.mp hs' with hs' | hs'
    · exact hroom.1 s' hs'
    · rw [List.mem_singleton.mp hs']
      exact hs
  · intro q hq
    rcases List.prefix_concat_iff.mp ((List.mem_inits _ _).mp hq) with rfl | hq
    · exact .inl hnone
    · exact hroom.2 q ((List.mem_inits _ _).mpr hq)

/-- The trace of a path is how it is resolved with every directory made. -/
theorem traceWith_filled {jump jump' : Location → List Text → Walk}
    (hjump : ∀ base ps, fs.tree.filled.entry base ≠ none → jump base ps = jump' base ps)
    {cur : Location} {ps : List Text} (hcur : fs.tree.filled.entry cur ≠ none) :
    traceWith jump fs.tree cur ps = walkWith jump' fs.filled.tree true cur ps := by
  induction ps generalizing cur with
  | nil => rfl
  | cons s ps ih =>
    have htree : fs.filled.tree = fs.tree.filled := rfl
    rw [walkWith, traceWith, htree]
    by_cases hdir : fs.tree.filled.entry cur = some .dir
    · have hplace := (fs.room_of_dir hdir).2 cur ((List.mem_inits _ _).mpr (List.prefix_refl cur))
      rw [if_pos hdir, if_pos hplace]
      split
      · exact ih hcur
      · split
        · rw [ih]
          · rfl
          · rw [fs.filled_of_room]
            · exact Option.some_ne_none _
            · cases cur using List.reverseRecOn with
              | nil => exact fs.room_of_dir hdir
              | append_singleton p s' =>
                rw [List.dropLast_concat]
                exact (fs.room_of_dir hdir).parent
        · dsimp only
          cases hnext : fs.tree.entry (cur ++ [s]) with
          | none =>
            have hmade := fs.filled_next hdir hnext
            by_cases hname : FileName s
            · rw [if_pos hname] at hmade
              simp only [if_pos hname, hmade]
              exact congrArg _ (ih (by rw [hmade]; exact Option.some_ne_none _))
            · rw [if_neg hname] at hmade
              simp only [if_neg hname, hmade]
          | some e =>
            have hsome := filled_some hnext
            have hrest : fs.tree.filled.entry (cur ++ [s]) ≠ none := by
              rw [hsome]
              exact Option.some_ne_none _
            rw [hsome]
            cases e with
            | link target =>
              simp only [Bool.true_eq_false, and_false, if_false]
              rw [hjump]
              split
              · rw [filled_some fs.root]
                exact Option.some_ne_none _
              · exact hcur
            | dir => exact congrArg (Walk.cons _) (ih hrest)
            | file b => exact congrArg (Walk.cons _) (ih hrest)
            | special => exact congrArg (Walk.cons _) (ih hrest)
    · rw [if_neg hdir, if_neg]
      rintro (hnone | hsame)
      · rw [filled_none hnone] at hdir hcur
        split at hcur
        · rename_i hroom
          exact hdir (if_pos hroom)
        · exact hcur rfl
      · exact hdir (filled_some hsame)

theorem traceN_filled {n : Nat} {cur : Location} {ps : List Text}
    (hcur : fs.tree.filled.entry cur ≠ none) :
    traceN fs.tree n cur ps = walkN fs.filled.tree true n cur ps := by
  induction n generalizing cur ps with
  | zero => exact fs.traceWith_filled (fun _ _ _ => rfl) hcur
  | succ n ih => exact fs.traceWith_filled (fun _ _ h => ih h) hcur

end FileSystem

end Jitgen
