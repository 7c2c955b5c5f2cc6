import Jitgen.Framework.FileReplacement
import Jitgen.Framework.Numerals
import Jitgen.Framework.UnixPath

/-!
# Writing a file whole

The bytes go to a temporary file beside the target, which then takes the target's name. The process
id and a counter keep the temporary files of different writes apart.
-/

namespace Jitgen

open Text

inductive StateError where
  | sqlite (e : Text)
  | io (e : Text)
  | runNotFound (run : Text)
  | invalid (detail : Text)
  deriving DecidableEq

def StateError.display : StateError → Text
  | sqlite e => ("sqlite error: " : Text) ++ e
  | io e => ("io error: " : Text) ++ e
  | runNotFound run => ("run not found: " : Text) ++ run
  | invalid detail => ("invalid state: " : Text) ++ detail

/-- Operations on a directory that leave its files alone. -/
inductive DirOp where
  | isSymlink (dir : Text)
  | createDirAll (dir : Text)
  | setPermissions (dir : Text) (mode : Nat)

/-- A directory that cannot be examined counts as no symlink. -/
abbrev DirAns : DirOp → Type
  | .isSymlink _ => Bool
  | _ => Except Text Unit

/-- The files of one directory, under their names. -/
abbrev StateDir := CachedDir Text UInt8

abbrev StateDirAns := CachedDir.OpAns (N := Text) (β := UInt8) DirAns

abbrev FsProg (α : Type) := Fallible StateError StateDirAns α

def symlinkedStatePath (dir : Text) : StateError :=
  .invalid (("refusing to use symlinked state path: " : Text) ++ dir)

def isSymlink (dir : Text) : FsProg Bool :=
  Fallible.attempt (δ := StateError) (.other (.isSymlink dir)) id .ok

def createDirAll (dir : Text) : FsProg Unit :=
  Fallible.attempt (.other (.createDirAll dir)) .io id

def setPermissions (dir : Text) (mode : Nat) : FsProg Unit :=
  Fallible.attempt (.other (.setPermissions dir mode)) .io id

/-- Create a directory for its owner alone; one that is a symlink is refused. -/
def ensurePrivateDir (dir : Text) : FsProg Unit := do
  if ← isSymlink dir then throw (symlinkedStatePath dir)
  createDirAll dir
  setPermissions dir 0o700

/-- The text of a path without its last component. -/
def parentPath (path : Text) : Option Text :=
  (UnixPath.parent path).map fun cs =>
    (path.inits.find? fun p => UnixPath.components p = cs).getD []

def tempName (fileName : Text) (pid unique : Nat) : Text :=
  '.' :: fileName ++ '.' :: (ofNat pid ++ '.' :: (ofNat unique ++ (".tmp" : Text)))

section

open CachedDir

def atomicWrite (pid unique : Nat) (path : Text) (bytes : Bytes) : FsProg Unit := do
  match parentPath path with
  | none => throw (.invalid (("no parent dir for " : Text) ++ path))
  | some parent =>
    ensurePrivateDir parent
    match UnixPath.fileName path with
    | none => throw (.invalid (("bad file name for " : Text) ++ path))
    | some fileName =>
      let tmp := tempName fileName pid unique
      let f ← Fallible.attempt (.createNew tmp) .io id
      Fallible.attempt (.write f bytes) .io id
      Fallible.attempt (.syncFile f) .io id
      Fallible.attempt (.rename tmp fileName) .io id
      Fallible.attempt .syncDir .io id

end

private theorem append_sep_inj {sep : Char} {a b d e : Text} (hd : sep ∉ d) (he : sep ∉ e)
    (h : a ++ sep :: d = b ++ sep :: e) : a = b ∧ d = e := by
  rcases List.append_eq_append_iff.mp h with ⟨cs, rfl, hcs⟩ | ⟨cs, rfl, hcs⟩
  · cases cs with
    | nil =>
      rw [List.nil_append] at hcs
      exact ⟨(List.append_nil a).symm, (List.cons.inj hcs).2⟩
    | cons c cs =>
      refine absurd ?_ hd
      rw [(List.cons.inj hcs).2]
      exact List.mem_append_right _ List.mem_cons_self
  · cases cs with
    | nil =>
      rw [List.nil_append] at hcs
      exact ⟨List.append_nil b, (List.cons.inj hcs).2.symm⟩
    | cons c cs =>
      refine absurd ?_ he
      rw [(List.cons.inj hcs).2]
      exact List.mem_append_right _ List.mem_cons_self

theorem ofNat_injective : Function.Injective Text.ofNat :=
  Function.LeftInverse.injective digitsValue_ofNat

theorem tempName_injective {n n' : Text} {pid pid' unique unique' : Nat}
    (h : tempName n pid unique = tempName n' pid' unique') :
    n = n' ∧ pid = pid' ∧ unique = unique' := by
  have hdot : ∀ k, '.' ∉ Text.ofNat k := fun k => notMem_ofNat (by decide)
  have hstem : ('.' :: n ++ '.' :: Text.ofNat pid) ++ '.' :: Text.ofNat unique =
      ('.' :: n' ++ '.' :: Text.ofNat pid') ++ '.' :: Text.ofNat unique' := by
    apply (List.append_left_inj (".tmp" : Text)).mp
    simpa [tempName] using h
  obtain ⟨hrest, hunique⟩ := append_sep_inj (hdot _) (hdot _) hstem
  obtain ⟨hname, hpid⟩ := append_sep_inj (hdot _) (hdot _) hrest
  exact ⟨(List.cons.inj hname).2, ofNat_injective hpid, ofNat_injective hunique⟩

/-- A write of a file of `dir`. -/
structure WriteCall (dir : Text) where
  pid : Nat
  unique : Nat
  path : Text
  bytes : Bytes
  parent : parentPath path = some dir

namespace WriteCall

variable {dir : Text}

def fileName (a : WriteCall dir) : Option Text := UnixPath.fileName a.path

def program (a : WriteCall dir) : FsProg Unit := atomicWrite a.pid a.unique a.path a.bytes

def job (a : WriteCall dir) : Option (Job Text UInt8) :=
  a.fileName.map fun n => ⟨tempName n a.pid a.unique, n, a.bytes⟩

theorem job_eq_some {a : WriteCall dir} {b : Job Text UInt8} (h : a.job = some b) :
    ∃ n, a.fileName = some n ∧ b = ⟨tempName n a.pid a.unique, n, a.bytes⟩ := by
  obtain ⟨n, hn, rfl⟩ := Option.map_eq_some_iff.mp h
  exact ⟨n, hn, rfl⟩

end WriteCall

section

open CachedDir

variable {ι : Type} {dir : Text} {jobs : ι → Option (Job Text UInt8)} {start : StateDir} {j : ι}
  {w : DirWorld ι DirAns Text UInt8}

private theorem safe_ensurePrivateDir (d : Text) (hwhole : Whole jobs start w.state) :
    (ensurePrivateDir d).Safe exec j (replacing jobs start j)
      (fun _ w => Whole jobs start w.state) w := by
  unfold ensurePrivateDir
  apply Fallible.safe_bind (safe_other hwhole)
  rintro symlink w₁ ⟨hwhole₁, -⟩
  have hrest : (do createDirAll d; setPermissions d 0o700 : FsProg Unit).Safe exec j
      (replacing jobs start j) (fun _ w => Whole jobs start w.state) w₁ := by
    apply Fallible.safe_bind (safe_other hwhole₁)
    rintro - w₂ ⟨hwhole₂, -⟩
    exact (safe_other hwhole₂).mono fun _ _ h => h.1
  cases symlink with
  | true => exact Fallible.safe_throw
  | false => exact hrest

/-- A write does what the job of its target may. -/
theorem safe_atomicWrite (a : WriteCall dir) (hjobs : SetApart jobs) (ha : jobs j = a.job)
    (hwhole : Whole jobs start w.state) :
    a.program.Safe exec j (replacing jobs start j)
      (fun _ w => Whole jobs start w.state ∧
        ∀ b, jobs j = some b → Landed jobs b.dst w.state) w := by
  unfold WriteCall.program atomicWrite
  rw [a.parent]
  apply Fallible.safe_bind (safe_ensurePrivateDir dir hwhole)
  intro _ w₁ hwhole₁
  cases hname : UnixPath.fileName a.path with
  | none => exact Fallible.safe_throw
  | some name =>
    have hjob : jobs j = some ⟨tempName name a.pid a.unique, name, a.bytes⟩ := by
      rw [ha, WriteCall.job, WriteCall.fileName, hname]
      rfl
    apply Fallible.safe_bind (safe_createNew hjobs hjob hwhole₁)
    rintro f w₂ ⟨hwhole₂, hheld⟩
    apply Fallible.safe_bind (safe_write hjobs hjob hwhole₂ hheld)
    rintro - w₃ ⟨hwhole₃, hbytes⟩
    apply Fallible.safe_bind (safe_syncFile hjobs hjob hwhole₃ hbytes)
    rintro - w₄ ⟨hwhole₄, hbytes', hsynced⟩
    apply Fallible.safe_bind (safe_rename hjobs hjob hwhole₄ hbytes' hsynced)
    rintro - w₅ ⟨hwhole₅, hlatest⟩
    apply (safe_syncDir hjobs hjob hwhole₅ hlatest).mono
    rintro - w₆ ⟨hwhole₆, hlanded⟩
    refine ⟨hwhole₆, fun b hb => ?_⟩
    rw [hjob] at hb
    cases hb
    exact hlanded

end

end Jitgen
