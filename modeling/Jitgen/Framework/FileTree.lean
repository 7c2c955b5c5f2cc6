import Jitgen.Framework.UnixPath

/-!
# File trees

A tree of directories, files and symbolic links. Paths are resolved as an operating system resolves
them: name by name, following links, with a limit on their number.
-/

namespace Jitgen

open Text

inductive FsEntry where
  | dir
  | file (contents : Bytes)
  | link (target : Text)
  | special
  deriving DecidableEq

/-- Names below the root of a tree. -/
abbrev Location := List Text

inductive Errno where
  | notFound
  | notADirectory
  | isADirectory
  | alreadyExists
  | loop
  | denied
  | nulByte
  deriving DecidableEq

def Errno.display : Errno → Text
  | .notFound => "No such file or directory (os error 2)"
  | .denied => "Permission denied (os error 13)"
  | .alreadyExists => "File exists (os error 17)"
  | .notADirectory => "Not a directory (os error 20)"
  | .isADirectory => "Is a directory (os error 21)"
  | .loop => "Too many levels of symbolic links (os error 40)"
  | .nulByte => "file name contained an unexpected NUL byte"

/-- A way of changing a tree at one place. -/
inductive Access where
  | mkdir
  | create
  | write
  | rename
  | remove
  deriving DecidableEq

structure FileTree where
  entry : Location → Option FsEntry
  /-- Changes that the permissions of the tree do not allow. -/
  refuses : Access → Location → Bool

namespace FileTree

def set (t : FileTree) (p : Location) (e : Option FsEntry) : FileTree :=
  { t with entry := fun q => if q = p then e else t.entry q }

@[simp] theorem set_same (t : FileTree) (p : Location) (e : Option FsEntry) :
    (t.set p e).entry p = e := by
  simp [set]

theorem set_other (t : FileTree) {p q : Location} (e : Option FsEntry) (h : q ≠ p) :
    (t.set p e).entry q = t.entry q := by
  simp [set, h]

@[simp] theorem set_refuses (t : FileTree) (p : Location) (e : Option FsEntry) :
    (t.set p e).refuses = t.refuses := rfl

def here : Text := "."

def above : Text := ".."

/-- What a path is resolved by; a final slash stands for the directory itself. -/
def pieces (path : Text) : List Text :=
  let ps := (path.splitOn '/').filter (!·.isEmpty)
  if path.endsWith "/" && !ps.isEmpty then ps ++ [here] else ps

/-- The pieces of a path that lead on. -/
def names (ps : List Text) : List Text := ps.filter (· ≠ here)

/-- What resolving a path goes through. -/
inductive Step where
  | entry (p : Location)
  | link (p : Location)
  | up (p : Location)
  deriving DecidableEq

structure Walk where
  steps : List Step
  result : Except Errno Location

def Walk.cons (s : Step) (w : Walk) : Walk := { w with steps := s :: w.steps }

/-- Resolve pieces from a place; a link that has to be followed is left to `jump`. The last name need
not exist. -/
def walkWith (jump : Location → List Text → Walk) (t : FileTree) (follow : Bool) :
    Location → List Text → Walk
  | cur, [] => ⟨[], .ok cur⟩
  | cur, s :: rest =>
    if t.entry cur = some .dir then
      if s = here then walkWith jump t follow cur rest
      else if s = above then (walkWith jump t follow cur.dropLast rest).cons (.up cur)
      else
        let next := cur ++ [s]
        match t.entry next with
        | some (.link target) =>
          if rest = [] ∧ follow = false then ⟨[.entry next], .ok next⟩
          else
            let base := if UnixPath.isAbsolute target then [] else cur
            (jump base (pieces target ++ rest)).cons (.link next)
        | some _ => (walkWith jump t follow next rest).cons (.entry next)
        | none => ⟨[], if rest = [] then .ok next else .error .notFound⟩
    else ⟨[], .error .notADirectory⟩

/-- Resolve pieces, following at most a number of links. -/
def walkN (t : FileTree) (follow : Bool) : Nat → Location → List Text → Walk
  | 0 => walkWith (fun _ _ => ⟨[], .error .loop⟩) t follow
  | n + 1 => walkWith (walkN t follow n) t follow

def maxLinks : Nat := 40

def walk (t : FileTree) (follow : Bool) (base : Location) (ps : List Text) : Walk :=
  walkN t follow maxLinks base ps

theorem walk_eq (t : FileTree) (follow : Bool) :
    ∃ jump, walk t follow = walkWith jump t follow := ⟨walkN t follow 39, rfl⟩

def hasNul (ps : List Text) : Bool := ps.any (·.contains '\x00')

/-- The entry that a path denotes; of a link, what it denotes when links are followed. -/
def metadata (t : FileTree) (follow : Bool) (base : Location) (ps : List Text) :
    Except Errno FsEntry :=
  if hasNul ps then .error .nulByte
  else
    match (t.walk follow base ps).result with
    | .error e => .error e
    | .ok p =>
      match t.entry p with
      | some e => .ok e
      | none => .error .notFound

/-- Contents of the file that a path denotes. -/
def read (t : FileTree) (base : Location) (ps : List Text) : Except Errno Bytes :=
  match t.metadata true base ps with
  | .ok (.file b) => .ok b
  | .ok .dir => .error .isADirectory
  | .ok _ => .error .denied
  | .error e => .error e

/-- The place of the entry that the last name of a path stands for, below an existing directory;
`noName` is the error where no name comes last. -/
def target (t : FileTree) (noName : Errno) (base : Location) (ps : List Text) :
    Except Errno Location :=
  if hasNul ps then .error .nulByte
  else
    match ps.getLast? with
    | none => .error noName
    | some s =>
      match (t.walk true base ps.dropLast).result with
      | .error e => .error e
      | .ok p =>
        match t.entry p with
        | some .dir => if s = here ∨ s = above then .error noName else .ok (p ++ [s])
        | some _ => .error .notADirectory
        | none => .error .notFound

def mkdir (t : FileTree) (base : Location) (ps : List Text) : Except Errno FileTree :=
  match t.target .alreadyExists base ps with
  | .error e => .error e
  | .ok p =>
    if (t.entry p).isSome then .error .alreadyExists
    else if t.refuses .mkdir p then .error .denied
    else .ok (t.set p (some .dir))

/-- Create a file that must be new; its place is the handle. -/
def createNew (t : FileTree) (base : Location) (ps : List Text) :
    Except Errno (Location × FileTree) :=
  match t.target .isADirectory base ps with
  | .error e => .error e
  | .ok p =>
    if (t.entry p).isSome then .error .alreadyExists
    else if t.refuses .create p then .error .denied
    else .ok (p, t.set p (some (.file [])))

/-- Write to the file of a handle. -/
def writeAll (t : FileTree) (p : Location) (bytes : Bytes) : Except Errno FileTree :=
  if t.refuses .write p then .error .denied else .ok (t.set p (some (.file bytes)))

/-- Replace the contents of a file or create it, following links. -/
def write (t : FileTree) (base : Location) (ps : List Text) (bytes : Bytes) :
    Except Errno FileTree :=
  if hasNul ps then .error .nulByte
  else if ps.getLast? = some here then .error .isADirectory
  else
    match (t.walk true base ps).result with
    | .error e => .error e
    | .ok p =>
      match t.entry p with
      | some .dir => .error .isADirectory
      | some (.file _) => t.writeAll p bytes
      | some _ => .error .denied
      | none => if t.refuses .create p then .error .denied else .ok (t.set p (some (.file bytes)))

/-- Move a file onto a path; what is there is replaced, and no link is followed. -/
def rename (t : FileTree) (base : Location) (old new : List Text) : Except Errno FileTree :=
  match t.target .notADirectory base old with
  | .error e => .error e
  | .ok p =>
    match t.target .notADirectory base new with
    | .error e => .error e
    | .ok q =>
      if t.entry p = none then .error .notFound
      else if t.entry q = some .dir then .error .isADirectory
      else if t.refuses .rename q then .error .denied
      else .ok ((t.set p none).set q (t.entry p))

def removeFile (t : FileTree) (base : Location) (ps : List Text) : Except Errno FileTree :=
  match t.target .isADirectory base ps with
  | .error e => .error e
  | .ok p =>
    match t.entry p with
    | none => .error .notFound
    | some .dir => .error .isADirectory
    | some _ => if t.refuses .remove p then .error .denied else .ok (t.set p none)

theorem names_append (ps rest : List Text) : names (ps ++ rest) = names ps ++ names rest :=
  List.filter_append ..

theorem names_here (ps : List Text) : names (here :: ps) = names ps := by
  simp [names]

theorem names_name {s : Text} (h : s ≠ here) (ps : List Text) :
    names (s :: ps) = s :: names ps := by
  simp [names, h]

/-- All places on a way are directories. -/
def Real (t : FileTree) (cur : Location) (ns : List Text) : Prop :=
  ∀ q, q <+: ns → t.entry (cur ++ q) = some .dir

section

variable {t : FileTree} {cur : Location} {ps ns : List Text} {s : Text}

theorem Real.base (h : t.Real cur ns) : t.entry cur = some .dir := by
  simpa using h [] List.nil_prefix

theorem Real.whole (h : t.Real cur ns) : t.entry (cur ++ ns) = some .dir :=
  h ns (List.prefix_refl ns)

theorem Real.tail (h : t.Real cur (s :: ns)) : t.Real (cur ++ [s]) ns := by
  intro q hq
  have hdir := h (s :: q) ((List.prefix_cons_inj s).mpr hq)
  simpa using hdir

theorem Real.fresh {p : Location} (h : t.Real cur ns) (hnone : t.entry p = none)
    (e : Option FsEntry) : (t.set p e).Real cur ns := by
  intro q hq
  have hdir := h q hq
  rw [set_other, hdir]
  rintro rfl
  rw [hnone] at hdir
  cases hdir

theorem walkWith_real (jump : Location → List Text → Walk) (follow : Bool) (hup : above ∉ ps)
    (h : t.Real cur (names ps)) (rest : List Text) :
    (walkWith jump t follow cur (ps ++ rest)).result =
      (walkWith jump t follow (cur ++ names ps) rest).result := by
  induction ps generalizing cur with
  | nil => simp [names]
  | cons s ps ih =>
    rw [List.mem_cons, not_or] at hup
    by_cases hs : s = here
    · subst hs
      rw [names_here] at h ⊢
      rw [List.cons_append, walkWith, if_pos h.base, if_pos rfl]
      exact ih hup.2 h
    · rw [names_name hs] at h ⊢
      have hnext : t.entry (cur ++ [s]) = some .dir := h.tail.base
      rw [List.cons_append, walkWith, if_pos h.base, if_neg hs, if_neg (Ne.symm hup.1)]
      simp only [hnext, Walk.cons]
      rw [ih hup.2 h.tail, List.append_assoc, List.singleton_append]

theorem walk_name (follow : Bool) (hup : above ∉ ps) (h : t.Real cur (names ps)) (hs : s ≠ here)
    (hs' : s ≠ above)
    (hlink : follow = true → ∀ target, t.entry (cur ++ names ps ++ [s]) ≠ some (.link target)) :
    (t.walk follow cur (ps ++ [s])).result = .ok (cur ++ names ps ++ [s]) := by
  obtain ⟨jump, hjump⟩ := walk_eq t follow
  rw [hjump, walkWith_real jump follow hup h, walkWith, if_pos h.whole, if_neg hs, if_neg hs']
  dsimp only
  split
  · rename_i target hentry
    cases follow with
    | true => exact absurd hentry (hlink rfl target)
    | false => simp
  · simp [walkWith, Walk.cons]
  · simp

theorem walk_real (follow : Bool) (hup : above ∉ ps) (h : t.Real cur (names ps)) :
    (t.walk follow cur ps).result = .ok (cur ++ names ps) := by
  obtain ⟨jump, hjump⟩ := walk_eq t follow
  have hwalk := walkWith_real jump follow hup h []
  rw [List.append_nil] at hwalk
  rw [hjump, hwalk]
  rfl

theorem metadata_name (hnul : hasNul (ps ++ [s]) = false) (hup : above ∉ ps)
    (h : t.Real cur (names ps)) (hs : s ≠ here) (hs' : s ≠ above) :
    t.metadata false cur (ps ++ [s]) =
      match t.entry (cur ++ names ps ++ [s]) with
      | some e => .ok e
      | none => .error .notFound := by
  unfold metadata
  rw [hnul, walk_name false hup h hs hs' (by simp)]
  rfl

theorem target_name (noName : Errno) (hnul : hasNul (ps ++ [s]) = false) (hup : above ∉ ps)
    (h : t.Real cur (names ps)) (hs : s ≠ here) (hs' : s ≠ above) :
    t.target noName cur (ps ++ [s]) = .ok (cur ++ names ps ++ [s]) := by
  unfold target
  rw [hnul, List.getLast?_concat, List.dropLast_concat, walk_real true hup h]
  simp [h.whole, hs, hs']

theorem walkWith_concat {jump : Location → List Text → Walk} {follow : Bool} {P : Location → Prop}
    (hlast : ∀ cur p, (walkWith jump t follow cur [s]).result = .ok p → P p)
    (hjump : ∀ base ps p, (jump base (ps ++ [s])).result = .ok p → P p)
    {p : Location} (h : (walkWith jump t follow cur (ps ++ [s])).result = .ok p) : P p := by
  induction ps generalizing cur with
  | nil => exact hlast cur p h
  | cons s' ps ih =>
    rw [List.cons_append, walkWith] at h
    split at h
    · split at h
      · exact ih h
      · split at h
        · exact ih h
        · dsimp only at h
          split at h
          · simp only [List.append_eq_nil_iff, and_false, false_and, if_false, List.cons_ne_self,
              ← List.append_assoc] at h
            exact hjump _ _ p h
          · exact ih h
          · simp at h
    · cases h

theorem walkN_concat {follow : Bool} {P : Location → Prop}
    (hlast : ∀ jump cur p, (walkWith jump t follow cur [s]).result = .ok p → P p) {n : Nat}
    {p : Location} (h : (walkN t follow n cur (ps ++ [s])).result = .ok p) : P p := by
  induction n generalizing cur ps p with
  | zero =>
    apply walkWith_concat (hlast _) (fun _ _ _ h => ?_) h
    cases h
  | succ n ih => exact walkWith_concat (hlast _) (fun _ _ _ h => ih h) h

theorem walkN_here {follow : Bool} {n : Nat} {p : Location}
    (h : (walkN t follow n cur (ps ++ [here])).result = .ok p) : t.entry p = some .dir := by
  apply walkN_concat (fun jump cur p hlast => ?_) h
  rw [walkWith] at hlast
  split at hlast
  · rename_i hdir
    cases hlast
    exact hdir
  · cases hlast

theorem metadata_here {follow : Bool} {e : FsEntry}
    (h : t.metadata follow cur (ps ++ [here]) = .ok e) : e = .dir := by
  unfold metadata at h
  split at h
  · cases h
  · split at h
    · cases h
    · rename_i p hp
      rw [walkN_here hp] at h
      exact (Except.ok.inj h).symm

theorem read_name {b : Bytes} (hnul : hasNul (ps ++ [s]) = false) (hup : above ∉ ps)
    (h : t.Real cur (names ps)) (hs : s ≠ here) (hs' : s ≠ above)
    (hfile : t.entry (cur ++ names ps ++ [s]) = some (.file b)) :
    t.read cur (ps ++ [s]) = .ok b := by
  have hwalk := walk_name true hup h hs hs' fun _ target => by rw [hfile]; simp
  unfold read metadata
  rw [hnul, hwalk]
  simp only [Bool.false_eq_true, if_false, hfile]

end

end FileTree

end Jitgen
