import Jitgen.Orchestrator.Checkout
import Jitgen.State.Store

/-!
# Materialization of a candidate

A candidate is written below the root of an overlay. A file that is already there is kept when it
holds the same bytes and is a conflict otherwise. Overlays hold no symbolic links, so the refusals
of one are left out.
-/

namespace Jitgen

open Text

inductive MaterializeError where
  | unsafePath (rel : Text)
  | notRegularFile (path : Text)
  | conflict (rel : Text)
  | tooLarge (detail : Text)
  | io (path source : Text)
  deriving DecidableEq

namespace MaterializeError

def display : MaterializeError → Text
  | .unsafePath rel => "unsafe overlay-relative path: " ++ debugQuoted rel
  | .notRegularFile path =>
    "destination exists but is not a regular file: " ++ debugQuoted path
  | .conflict rel =>
    "destination already exists with conflicting content: " ++ debugQuoted rel
  | .tooLarge detail => "exceeds materialization limit: " ++ detail
  | .io path source => ("io error at " : Text) ++ debugQuoted path ++ ": " ++ source

/-- Whether the destination was found to exist. -/
def destinationTaken : MaterializeError → Bool
  | .notRegularFile _ => true
  | .conflict _ => true
  | _ => false

end MaterializeError

structure MaterializedTest where
  candidate : TestCandidate
  absPath : Text
  sha256 : Text
  deriving DecidableEq

namespace Materialize

def maxSourceBytes : Nat := 1024 * 1024

def maxRelBytes : Nat := 4096

def maxRelComponents : Nat := 64

/-- Lexical check of an overlay-relative path. -/
def validateRel (rel : Text) : Except MaterializeError Unit :=
  let comps := UnixPath.components rel
  let components := (UnixPath.normals comps).length
  if rel.isEmpty || rel.contains '\\' then .error (.unsafePath rel)
  else if maxRelBytes < utf8Len rel then
    .error (.tooLarge (("path " : Text) ++ ofNat (utf8Len rel) ++ " bytes > " ++ ofNat maxRelBytes))
  else if hasDrivePrefix rel then .error (.unsafePath rel)
  else if comps.any (fun c => c = .rootDir || c = .parentDir) then .error (.unsafePath rel)
  else if maxRelComponents < components then
    .error (.tooLarge (("path has " : Text) ++ ofNat components ++ " components > " ++
      ofNat maxRelComponents))
  else if components = 0 then .error (.unsafePath rel)
  else .ok ()

/-- Create the directories of a parent path below `cur`, refusing anything else on the way. -/
def createDirs (root rel : Text) :
    Overlay → (cur : List Text) → List UnixPath.Component → Except MaterializeError Overlay
  | o, _, [] => .ok o
  | o, cur, .normal seg :: comps =>
    let path := root ++ "/" ++ join "/" (cur ++ [seg])
    if seg.contains '\x00' then .error (.io path IoError.nulByte.display)
    else
      match o.walk [] (cur ++ [seg]) with
      | .ok .dir => createDirs root rel o (cur ++ [seg]) comps
      | .ok (.file _) => .error (.io path "non-directory component in destination path")
      | .error .notFound => createDirs root rel (o.set (cur ++ [seg]) .dir) (cur ++ [seg]) comps
      | .error e => .error (.io path e.display)
  | o, cur, .curDir :: comps => createDirs root rel o cur comps
  | _, _, _ :: _ => .error (.unsafePath rel)

def createParents (root : Text) (o : Overlay) (rel : Text) : Except MaterializeError Overlay :=
  match UnixPath.parent rel with
  | none => .ok o
  | some comps => createDirs root rel o [] comps

variable [Digest]

/-- Put the bytes at the destination; identical ones may be there already. -/
def install (root : Text) (o : Overlay) (rel : Text) (bytes : Bytes) :
    Except MaterializeError Overlay :=
  let dest := root ++ "/" ++ rel
  match o.metadata rel with
  | .ok (.file existing) =>
    if existing.length ≠ bytes.length then .error (.conflict rel)
    else if sha256Hex existing ≠ sha256Hex bytes then .error (.conflict rel)
    else .ok o
  | .ok .dir => .error (.notRegularFile dest)
  | .error .notFound =>
    if namesDirectory rel then .error (.io dest IoError.notADirectory.display)
    else .ok (o.set (segments rel) (.file bytes))
  | .error e => .error (.io dest e.display)

/-- Write a candidate into the overlay. -/
def materialize (root : Text) (o : Overlay) (candidate : TestCandidate) :
    Except MaterializeError (MaterializedTest × Overlay) :=
  let rel := candidate.relPath
  let bytes := toUtf8 candidate.source
  if maxSourceBytes < utf8Len candidate.source then
    .error (.tooLarge (("candidate source " : Text) ++ ofNat (utf8Len candidate.source) ++
      " bytes > " ++ ofNat maxSourceBytes))
  else do
    validateRel rel
    let o ← createParents root o rel
    let o ← install root o rel bytes
    return (⟨candidate, root ++ "/" ++ rel, sha256Hex bytes⟩, o)

omit [Digest] in
theorem validateRel_ok {rel : Text} (h : validateRel rel = .ok ()) :
    ∃ lead, (lead = [] ∨ lead = [UnixPath.Component.curDir]) ∧ segments rel ≠ [] ∧
      UnixPath.components rel = lead ++ (segments rel).map .normal := by
  unfold validateRel at h
  dsimp only at h
  split_ifs at h with hempty hlen hdrive hplain hcount hnone
  simp only [List.any_eq_true, decide_eq_true_eq, Bool.or_eq_true, not_exists, not_and,
    not_or] at hplain
  obtain ⟨lead, hlead, hrel⟩ := components_plain (fun hmem => (hplain _ hmem).1 rfl)
    (fun hmem => (hplain _ hmem).2 rfl)
  refine ⟨lead, hlead, segments_ne_nil hlead hrel ?_, hrel⟩
  intro hnil
  exact hnone (by rw [hnil]; rfl)

omit [Digest] in
private theorem validateRel_error {rel : Text} {e : MaterializeError}
    (h : validateRel rel = .error e) :
    e.destinationTaken = false := by
  unfold validateRel at h
  dsimp only at h
  split_ifs at h <;> cases h <;> rfl

omit [Digest] in
/-- Where the directories can be created, a checkout creates the same ones. -/
private theorem createDirs_ok {root rel : Text} {comps : List UnixPath.Component} {cur : List Text}
    {o o' : Overlay} (h : createDirs root rel o cur comps = .ok o') :
    Jitgen.createDirs rel o cur comps = .ok o' := by
  induction comps generalizing o cur with
  | nil =>
    cases h
    rfl
  | cons comp comps ih =>
    cases comp with
    | rootDir => cases h
    | parentDir => cases h
    | curDir => exact ih h
    | normal seg =>
      simp only [createDirs] at h
      split at h
      · cases h
      · split at h
        · rename_i hdir
          simp only [Jitgen.createDirs, hdir]
          exact ih h
        · cases h
        · rename_i hnone
          simp only [Jitgen.createDirs, hnone]
          exact ih h
        · cases h

omit [Digest] in
private theorem createDirs_error {root rel : Text} {comps : List UnixPath.Component}
    {cur : List Text} {o : Overlay} {e : MaterializeError}
    (h : createDirs root rel o cur comps = .error e) :
    e.destinationTaken = false := by
  induction comps generalizing o cur with
  | nil => cases h
  | cons comp comps ih =>
    cases comp with
    | rootDir => cases h; rfl
    | parentDir => cases h; rfl
    | curDir => exact ih h
    | normal seg =>
      simp only [createDirs] at h
      split at h
      · cases h; rfl
      · split at h
        · exact ih h
        · cases h; rfl
        · exact ih h
        · cases h; rfl

omit [Digest] in
private theorem createParents_ok {root rel : Text} {o o' : Overlay}
    (h : createParents root o rel = .ok o') : Jitgen.createParents o rel = .ok o' := by
  unfold createParents at h
  unfold Jitgen.createParents
  cases hparent : UnixPath.parent rel with
  | none =>
    rw [hparent] at h
    cases h
    rfl
  | some comps =>
    rw [hparent] at h
    exact createDirs_ok h

omit [Digest] in
private theorem createParents_error {root rel : Text} {o : Overlay} {e : MaterializeError}
    (h : createParents root o rel = .error e) : e.destinationTaken = false := by
  unfold createParents at h
  split at h
  · cases h
  · exact createDirs_error h

private theorem install_error {root rel : Text} {o : Overlay} {bytes : Bytes} {e : MaterializeError}
    (hvacant : o (segments rel) = none) (h : install root o rel bytes = .error e) :
    e.destinationTaken = false := by
  have hmissing : ∀ n, o.metadata rel ≠ .ok n := by
    intro n hn
    obtain ⟨k, hk⟩ := walk_of_metadata hn
    have hget := Overlay.walk_get hk
    rw [List.nil_append, hvacant] at hget
    cases hget
  unfold install at h
  dsimp only at h
  split at h
  · exact absurd (by assumption) (hmissing _)
  · exact absurd (by assumption) (hmissing _)
  · split_ifs at h
    cases h
    rfl
  · cases h
    rfl

/-- Nothing at the destination: whatever fails, it is not because of what is there. -/
theorem materialize_vacant {root : Text} {o : Overlay} {c : TestCandidate} {e : MaterializeError}
    (hvacant : segments c.relPath ≠ [] → o (segments c.relPath) = none) (h : materialize root o c = .error e) :
    e.destinationTaken = false := by
  unfold materialize at h
  dsimp only at h
  split at h
  · cases h
    rfl
  · rcases bind_eq_error.mp h with hvalid | ⟨u, hvalid, h⟩
    · exact validateRel_error hvalid
    obtain ⟨lead, hlead, hne, hrel⟩ := validateRel_ok hvalid
    rcases bind_eq_error.mp h with hparents | ⟨o₁, hparents, h⟩
    · exact createParents_error hparents
    have hstill : o₁ (segments c.relPath) = none := by
      rw [← hvacant hne]
      apply createParents_frame hlead hne hrel (createParents_ok hparents)
      intro hpre
      have hlen := hpre.length_le
      rw [List.length_dropLast] at hlen
      have hpos := List.length_pos_of_ne_nil hne
      omega
    rcases bind_eq_error.mp h with hinstall | ⟨o₂, hinstall, h⟩
    · exact install_error hstill hinstall
    · cases h

end Materialize

end Jitgen
