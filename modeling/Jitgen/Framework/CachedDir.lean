import Jitgen.Framework.Durable
import Jitgen.Framework.Text

/-!
# A directory behind a cache

The files of one directory, as processes see them now and as a crash may leave them. A change that
was not synchronized may be lost in any way: a name may stand for any file it stood for since the
directory was last synchronized, and a file that was not synchronized may hold anything.

A file is replaced by way of a temporary one. The rules for the operations of such a replacement say
what every other replacement may rely on, so that any number of them may run at once.
-/

namespace Jitgen

variable {X N β : Type}

structure CachedDir (N β : Type) where
  names : N → Option Nat
  /-- The names before each change since the directory was last synchronized. -/
  pending : List (N → Option Nat)
  contents : Nat → List β
  /-- Files that hold on disk what they hold in the cache. -/
  synced : Nat → Bool
  next : Nat
  /-- Whether the directory itself survives a crash. -/
  anchored : Bool

namespace CachedDir

def read (d : CachedDir N β) (n : N) : Option (List β) := (d.names n).map d.contents

/-- What each name may stand for after a crash. -/
def views (d : CachedDir N β) : List (N → Option Nat) := d.names :: d.pending

/-- A directory that a crash may leave. -/
inductive AfterCrash (d d' : CachedDir N β) : Prop
  | kept (hnames : ∀ n, ∃ e ∈ d.views, d'.names n = e n)
      (hcontents : ∀ i, d.synced i = true → d'.contents i = d.contents i)
  | lost (hanchored : d.anchored = false) (hnames : ∀ n, d'.names n = none)

variable [DecidableEq N]

def create (d : CachedDir N β) (n : N) : CachedDir N β :=
  { d with
    names := Function.update d.names n (some d.next)
    pending := d.names :: d.pending
    contents := Function.update d.contents d.next []
    synced := Function.update d.synced d.next false
    next := d.next + 1 }

def append (d : CachedDir N β) (file : Nat) (bytes : List β) : CachedDir N β :=
  { d with
    contents := Function.update d.contents file (d.contents file ++ bytes)
    synced := Function.update d.synced file false }

def flush (d : CachedDir N β) (file : Nat) : CachedDir N β :=
  { d with synced := Function.update d.synced file true }

/-- Give a file another name; the file of that name is gone. -/
def move (d : CachedDir N β) (old new : N) (file : Nat) : CachedDir N β :=
  { d with
    names := Function.update (Function.update d.names new (some file)) old none
    pending := d.names :: d.pending }

def settleNames (d : CachedDir N β) : CachedDir N β := { d with pending := [] }

/-- Operations on a directory, and others that leave its names and files alone. -/
inductive Op (X N β : Type) where
  | createNew (n : N)
  | write (file : Nat) (bytes : List β)
  | syncFile (file : Nat)
  | rename (old new : N)
  | syncDir
  | other (x : X)

abbrev OpAns (A : X → Type) : Op X N β → Type
  | .createNew _ => Except Text Nat
  | .other x => A x
  | _ => Except Text Unit

/-- Whether an operation fails, what a failing one does nevertheless, and what others answer. -/
structure Choice (A : X → Type) where
  error : Option Text
  effective : Bool
  kept : Nat
  answer : (x : X) → A x

variable {A : X → Type} {α : Type}

def Choice.settle (c : Choice A) (a : α) (done before : CachedDir N β) :
    Except Text α × CachedDir N β :=
  match c.error with
  | none => (.ok a, done)
  | some e => (.error e, if c.effective then done else before)

omit [DecidableEq N] in
theorem Choice.settle_state (c : Choice A) (a : α) (done before : CachedDir N β) :
    (c.settle a done before).2 = done ∨ (c.settle a done before).2 = before := by
  unfold settle
  cases c.error with
  | none => exact .inl rfl
  | some e =>
    cases c.effective with
    | true => exact .inl rfl
    | false => exact .inr rfl

omit [DecidableEq N] in
theorem Choice.settle_ok {c : Choice A} {a b : α} {done before : CachedDir N β}
    (h : (c.settle a done before).1 = .ok b) :
    b = a ∧ (c.settle a done before).2 = done := by
  unfold settle at h ⊢
  cases he : c.error with
  | none =>
    rw [he] at h
    cases h
    exact ⟨rfl, rfl⟩
  | some e =>
    rw [he] at h
    cases h

/-- Perform an operation; a failing write may have written a part. -/
def exec : Handler (OpAns (N := N) (β := β) A) (Choice A) (CachedDir N β) := fun c o d =>
  match o with
  | .createNew n =>
    if (d.names n).isSome then (.error "File exists (os error 17)", d)
    else c.settle d.next (d.create n) d
  | .write file bytes =>
    match c.error with
    | none => (.ok (), d.append file bytes)
    | some e => (.error e, d.append file (bytes.take c.kept))
  | .syncFile file => c.settle () (d.flush file) d
  | .rename old new =>
    match d.names old with
    | none => (.error "No such file or directory (os error 2)", d)
    | some file => c.settle () (d.move old new file) d
  | .syncDir => c.settle () d.settleNames d
  | .other x => (c.answer x, d)

end CachedDir

end Jitgen
