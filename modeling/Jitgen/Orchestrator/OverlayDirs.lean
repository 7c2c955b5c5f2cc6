import Jitgen.Adapters.TestCommand
import Jitgen.Framework.Durable
import Jitgen.Materialize.Install
import Jitgen.Orchestrator.Executor
import Jitgen.Sandbox.Session

/-!
# Overlay directories

Every execution of the sandbox executor makes a directory of its own, fills it, runs the tests in it
and removes it. Several executors, also of several processes, may do so below one root at once.
-/

namespace Jitgen

open Text

def Variant.label : Variant → Text
  | .base => "base"
  | .head => "head"
  | .mutant m => "mutant:" ++ m.id

def sanitizeChar (c : Char) : Char :=
  let c := charToAsciiLower c
  if isAsciiAlphanumeric c || c = '-' then c else '-'

def sanitizeTag (s : Text) : Text := (s.map sanitizeChar).take 24

def overlayTag : Variant → Text
  | .base => "base"
  | .head => "head"
  | .mutant m => "mut-" ++ sanitizeTag m.id

def unitSeparator : Text := ['\x1f']

/-- Everything that tells two executions apart. -/
def overlayMaterial (v : Variant) (candidate : Option TestCandidate) : Text :=
  v.label ++
    (match v with
    | .mutant m => unitSeparator ++ m.path ++ unitSeparator ++ m.diff
    | _ => []) ++
    (match candidate with
    | some c => unitSeparator ++ c.relPath ++ unitSeparator ++ c.source
    | none => [])

def overlayKey [Digest] (v : Variant) (candidate : Option TestCandidate) : Text :=
  overlayTag v ++ "-" ++ (sha256Hex (toUtf8 (overlayMaterial v candidate))).take 32

def overlayName [Digest] (v : Variant) (candidate : Option TestCandidate) (pid nonce : Nat) :
    Text :=
  overlayKey v candidate ++ "-" ++ ofNat pid ++ "-" ++ ofNat nonce

def instanceOf (overlay : Text) : Text := "jt-" ++ (UnixPath.fileName overlay).getD "overlay"

/-- How a failed build shows in what a test command gives. -/
def buildSignalFor (adapterId : Text) : BuildSignal :=
  if adapterId = "rust" then ⟨[], ["error[E", "could not compile", "error: aborting"]⟩
  else if adapterId = "python" then
    ⟨[2, 3, 4, 5], ["SyntaxError", "ModuleNotFoundError", "ImportError", "ERROR collecting"]⟩
  else if adapterId = "java" then
    ⟨[], ["BUILD FAILURE", "COMPILATION ERROR", "cannot find symbol"]⟩
  else if adapterId = "typescript" then ⟨[], ["SyntaxError", "Cannot find module", "error TS"]⟩
  else ⟨[], []⟩

def toSpawn (cmd : TestCommand) (adapterId : Text) : SpawnRequest where
  program := cmd.program
  args := cmd.args
  cwdRel := cmd.cwdRel
  shell := cmd.shell
  buildSignal := buildSignalFor adapterId

/-- What an executor does in a directory of its own. -/
inductive OverlayJob where
  | checkout (t : GitTree)
  | readFile (path : Text)
  | writeFile (path : Text) (bytes : Bytes)
  | openOverlay
  | materialize (root : Text) (candidate : TestCandidate)
  | run (req : RunRequest)

abbrev OverlayJob.Res : OverlayJob → Type
  | .checkout _ | .writeFile _ _ | .materialize _ _ => Unit
  | .readFile _ => Option Bytes
  | .openOverlay => Text
  | .run _ => ExecutionResult

inductive OverlayOp where
  /-- The pipeline asks for an operation. -/
  | asked (op : PipelineOp)
  | generate (req : LlmRequest)
  | nextNonce (process : Nat)
  | createDir (dir : Text)
  | work (dir : Text) (job : OverlayJob)
  | removeDirAll (dir : Text)

abbrev OverlayAns : OverlayOp → Type
  | .asked _ => Unit
  | .generate _ => Except GenerationError LlmResponse
  | .nextNonce _ => Nat
  | .createDir _ => Except Errno Unit
  | .work _ job => Except ExecError job.Res
  | .removeDirAll _ => Unit

/-- A run of tests: where, how and on which files. -/
structure OverlayRun where
  dir : Text
  req : RunRequest
  overlay : Overlay

/-- The directories that stand, by their paths, the counter of each process and the runs so far,
newest first. -/
structure OverlayStore where
  dirs : Text → Option Overlay
  nonces : Nat → Nat
  launches : List OverlayRun

namespace OverlayStore

def set (s : OverlayStore) (dir : Text) (o : Option Overlay) : OverlayStore :=
  { s with dirs := fun d => if d = dir then o else s.dirs d }

@[simp] theorem set_same (s : OverlayStore) (dir : Text) (o : Option Overlay) :
    (s.set dir o).dirs dir = o := by
  simp [set]

theorem set_other (s : OverlayStore) {dir d : Text} (o : Option Overlay) (h : d ≠ dir) :
    (s.set dir o).dirs d = s.dirs d := by
  simp [set, h]

@[simp] theorem set_launches (s : OverlayStore) (dir : Text) (o : Option Overlay) :
    (s.set dir o).launches = s.launches := rfl

end OverlayStore

/-- What the outside decides when an operation is performed. -/
structure OverlayChoice where
  provide : LlmRequest → Except GenerationError LlmResponse
  /-- The directory cannot be created. -/
  errno : Option Errno
  /-- The work in a directory is cut short. -/
  fault : Option ExecError
  /-- What is in a directory after work that failed, or after a run. -/
  debris : Overlay
  canonical : Except ExecError Text
  verdict : Overlay → Except ExecError ExecutionResult
  /-- A directory cannot be removed. -/
  leaves : Bool

namespace OverlayJob

variable [Digest]

/-- The answer to a job and the directory after it. -/
def perform (c : OverlayChoice) (dir : Text) (o : Overlay) :
    (job : OverlayJob) → Except ExecError job.Res × Overlay
  | .checkout t =>
    match checkoutRevision t o with
    | .ok o' => (.ok (), o')
    | .error e => (.error ⟨e.display dir⟩, c.debris)
  | .readFile path =>
    match readOverlayFile o path with
    | .ok found => (.ok found, o)
    | .error e => (.error ⟨e.display dir⟩, o)
  | .writeFile path bytes =>
    match Jitgen.writeFile o path bytes with
    | .ok o' => (.ok (), o')
    | .error e => (.error ⟨e.display dir⟩, c.debris)
  | .openOverlay => (c.canonical, o)
  | .materialize root candidate =>
    match Materialize.materialize root o candidate with
    | .ok (_, o') => (.ok (), o')
    | .error e => (.error ⟨e.display⟩, c.debris)
  | .run _ => (c.verdict o, c.debris)

/-- A job that runs tests is written down. -/
def launches (dir : Text) (o : Overlay) : OverlayJob → List OverlayRun
  | .run req => [⟨dir, req, o⟩]
  | _ => []

end OverlayJob

def goneError : ExecError := ⟨Errno.notFound.display⟩

namespace OverlayStore

variable [Digest]

def work (c : OverlayChoice) (dir : Text) (job : OverlayJob) (s : OverlayStore) :
    Except ExecError job.Res × OverlayStore :=
  match s.dirs dir with
  | none => (.error goneError, s)
  | some o =>
    match c.fault with
    | some e => (.error e, s.set dir (some c.debris))
    | none =>
      let r := job.perform c dir o
      (r.1, { s.set dir (some r.2) with launches := job.launches dir o ++ s.launches })

def handle : Handler OverlayAns OverlayChoice OverlayStore := fun c o s =>
  match o with
  | .asked _ => ((), s)
  | .generate req => (c.provide req, s)
  | .nextNonce process => (s.nonces process,
    { s with nonces := Function.update s.nonces process ((s.nonces process + 1) % 2 ^ 64) })
  | .createDir dir =>
    match c.errno, s.dirs dir with
    | some e, _ => (.error e, s)
    | none, some _ => (.error .alreadyExists, s)
    | none, none => (.ok (), s.set dir (some .empty))
  | .work dir job => s.work c dir job
  | .removeDirAll dir =>
    match s.dirs dir with
    | none => ((), s)
    | some _ => ((), s.set dir (if c.leaves then some c.debris else none))

end OverlayStore

abbrev OverlayProg (α : Type) := Fallible ExecError OverlayAns α

def askOverlay (o : OverlayOp) : OverlayProg (OverlayAns o) := Fallible.lift (Prog.ask o)

def workIn (dir : Text) (job : OverlayJob) : OverlayProg job.Res :=
  Fallible.attempt (.work dir job) id id

def removeDirAll (dir : Text) : OverlayProg Unit := askOverlay (.removeDirAll dir)

/-- The directory is removed whatever comes of the work in it. -/
def guardOverlay {α : Type} (dir : Text) (p : OverlayProg α) : OverlayProg α := do
  let r ← Fallible.capture p
  removeDirAll dir
  Fallible.ofExcept r

/-- An executor bound to a target, in a process; processes may have the same number `pid`. -/
structure OverlayExecutor where
  revs : Revisions
  command : Option TestCommand
  adapterId : Text
  stateRoot : Text
  overlaysRoot : Text
  runAs : Option Text
  process : Nat
  pid : Nat

namespace OverlayExecutor

variable (x : OverlayExecutor)

def maxOverlayAttempts : Nat := 64

/-- Check out the revision of a variant; a mutant is applied to the base. -/
def populate (dir : Text) : Variant → OverlayProg Unit
  | .base => workIn dir (.checkout x.revs.base)
  | .head => workIn dir (.checkout x.revs.head)
  | .mutant m => do
    workIn dir (.checkout x.revs.base)
    match ← workIn dir (.readFile m.path) with
    | none => throw ⟨"mutant path absent in base overlay"⟩
    | some original =>
      match fromUtf8 original with
      | none => throw ⟨"mutant target is not valid UTF-8"⟩
      | some original =>
        match PatchApply.applyUnifiedDiff original m.diff with
        | .error e => throw ⟨e.display⟩
        | .ok mutated => workIn dir (.writeFile m.path (toUtf8 mutated))

def testCommand : OverlayProg TestCommand :=
  match x.command with
  | some command => pure command
  | none => throw ⟨"adapter produced no test command for this target"⟩

/-- What the sandbox is asked to run in the overlay at a root. -/
def request (command : TestCommand) (root dir : Text) : RunRequest where
  command := toSpawn command x.adapterId
  overlayRoot := root
  stateRoot := x.stateRoot
  instance' := instanceOf dir
  runAs := x.runAs

variable [Digest]

def overlayDir (v : Variant) (candidate : Option TestCandidate) (nonce : Nat) : Text :=
  UnixPath.push x.overlaysRoot (overlayName v candidate x.pid nonce)

/-- Make a directory that was not there and fill it; one that cannot be filled is removed. -/
def freshOverlay (v : Variant) (candidate : Option TestCandidate) : Nat → OverlayProg Text
  | 0 => throw ⟨"could not allocate a fresh overlay directory"⟩
  | attempts + 1 => do
    let nonce ← askOverlay (.nextNonce x.process)
    let dir := x.overlayDir v candidate nonce
    match ← askOverlay (.createDir dir) with
    | .ok () =>
      match ← Fallible.capture (x.populate dir v) with
      | .ok () => return dir
      | .error e => do
        removeDirAll dir
        throw e
    | .error .alreadyExists => freshOverlay v candidate attempts
    | .error e => throw ⟨e.display⟩

def runCandidate (candidate : TestCandidate) (v : Variant) : OverlayProg ExecutionResult := do
  let dir ← x.freshOverlay v (some candidate) maxOverlayAttempts
  guardOverlay dir do
    let root ← workIn dir .openOverlay
    workIn dir (.materialize root candidate)
    let command ← x.testCommand
    workIn dir (.run (x.request command root dir))

def runExisting (v : Variant) : OverlayProg ExecutionResult := do
  let dir ← x.freshOverlay v none maxOverlayAttempts
  guardOverlay dir do
    let command ← x.testCommand
    workIn dir (.run (x.request command dir dir))

/-- Serve an operation of the pipeline. -/
def answer : (o : PipelineOp) → Prog OverlayAns (Ans o)
  | .generate req => Prog.ask (OverlayOp.generate req)
  | .runCandidate candidate v => (x.runCandidate candidate v).run
  | .runExisting v => (x.runExisting v).run

def serve (o : PipelineOp) : Prog OverlayAns (Ans o) :=
  Prog.bind (Prog.ask (OverlayOp.asked o)) fun _ => x.answer o

end OverlayExecutor

end Jitgen
