import Jitgen.Context.Redact
import Jitgen.Core.Model
import Jitgen.Framework.Utf8
import Jitgen.Sandbox.Command

/-!
# Running a plan

What the executor makes of a process: how its output is captured, how its end is classified and what
is returned of its output. The process itself is given by what the executor observes of it.
-/

namespace Jitgen

open Text Utf8

variable [WordChars]

/-- How a process ended. -/
structure Disposition where
  exitCode : Option Int
  signal : Option Int
  timedOut : Bool
  buildFailed : Bool
  innerNeverStarted : Bool

def classify (d : Disposition) : ExecOutcome :=
  if d.timedOut then .timeout
  else if d.innerNeverStarted then .errored
  else if d.signal.isSome then .errored
  else if d.buildFailed then .buildError
  else
    match d.exitCode with
    | some 0 => .passed
    -- 126 was found but is not executable, 127 was not found
    | some 126 | some 127 => .errored
    | some _ => .failed
    | none => .errored

def redactWindow : Nat := 256 * 1024

def redactTailGuard : Nat := 8 * 1024

/-- Least capture of an error stream that has to show a marker. -/
def stderrMarkerScanFloor : Nat := 4096

/-- What one read of a pipe returns; no bytes are the end of the stream. -/
inductive ReadResult where
  | ok (chunk : Bytes)
  | err

structure Capture where
  buf : Bytes
  truncated : Bool
  finished : Bool

/-- Keep what the cap leaves room for. -/
def Capture.append (cap : Nat) (c : Capture) (chunk : Bytes) : Capture :=
  if c.buf.length < cap then
    let take := min (cap - c.buf.length) chunk.length
    { c with
      buf := c.buf ++ chunk.take take
      truncated := c.truncated || decide (take < chunk.length) }
  else { c with truncated := true }

/-- The reader of a pipe, over the reads that have returned. -/
def Capture.drain (cap : Nat) : Capture → List ReadResult → Capture
  | c, [] => c
  | c, .err :: _ => { c with truncated := true, finished := true }
  | c, .ok chunk :: reads =>
    if chunk.isEmpty then { c with finished := true }
    else Capture.drain cap (c.append cap chunk) reads

def spawnCapture (reads : List ReadResult) (cap : Nat) : Capture :=
  Capture.drain cap ⟨[], false, false⟩ reads

/-- The captured bytes, and whether they may lack some: a reader that is not finished is left. -/
def collect (c : Capture) : Bytes × Bool := (c.buf, c.truncated || !c.finished)

/-- The bytes from `i` to before `j`; there are none outside the input. -/
def byteSlice (s : Bytes) (i j : Nat) : Option Bytes :=
  if i ≤ j ∧ j ≤ s.length then some ((s.drop i).take (j - i)) else none

/-- The scan for the first line that is the marker, from the line that begins at `start`. There is
no result when the fuel is used up or a slice leaves the input. -/
def stripMarkerLoop (stderr marker : Bytes) : (fuel start : Nat) → Option (Bytes × Bool)
  | 0, _ => none
  | fuel + 1, start =>
    if start ≤ stderr.length then do
      let rest ← byteSlice stderr start stderr.length
      let lineEnd := match rest.idxOf? 10 with
        | some rel => start + rel
        | none => stderr.length
      let hasNl := (rest.idxOf? 10).isSome
      let line ← byteSlice stderr start lineEnd
      if line = marker then
        let cutEnd := if hasNl then lineEnd + 1 else lineEnd
        let kept ← byteSlice stderr 0 start
        let after ← byteSlice stderr cutEnd stderr.length
        return (kept ++ after, true)
      else if !hasNl then return (stderr, false)
      else stripMarkerLoop stderr marker fuel (lineEnd + 1)
    else return (stderr, false)

/-- The same scan with the bytes of the line so far. -/
def stripMarkerGo (marker line : Bytes) : Bytes → Bytes × Bool
  | [] => if line = marker then ([], true) else (line, false)
  | b :: rest =>
    if b = 10 then
      if line = marker then (rest, true)
      else
        let r := stripMarkerGo marker [] rest
        (line ++ b :: r.1, r.2)
    else stripMarkerGo marker (line ++ [b]) rest

/-- Take out the first line that is the marker, and tell whether there is one. -/
def stripMarkerLine (stderr marker : Bytes) : Bytes × Bool := stripMarkerGo marker [] stderr

/-- Tell a failed build from a failed test by the hints of the adapter. -/
def detectBuildFailure (signal : BuildSignal) (code : Option Int) (stdout stderr : Bytes) : Bool :=
  match code with
  | none => false
  | some c =>
    if c = 0 then false
    else if signal.exitCodes.contains c then true
    else if signal.markers.isEmpty then false
    else signal.markers.any fun m =>
      hasSubstr (fromUtf8Lossy stdout) m || hasSubstr (fromUtf8Lossy stderr) m

/-- What is returned of a stream; a cut one loses its tail, where a secret may be cut. -/
def redactCapped (bytes : Bytes) (truncated : Bool) : Text :=
  let slice := if truncated then bytes.take (bytes.length - redactTailGuard) else bytes
  (redact (fromUtf8Lossy slice)).text

structure ExitStatus where
  code : Option Int
  signal : Option Int

/-- A process as the executor observes it: the reads of its streams, how waiting for it ended and
whether that was at the deadline. -/
structure Child where
  stdout : List ReadResult
  stderr : List ReadResult
  wait : Except SandboxError (ExitStatus × Bool)
  durationMs : Nat

/-- What became of the attempt to spawn a launcher. -/
inductive Launch where
  | untrusted
  | notSpawned
  | spawned (child : Child)

def ExecPolicy.cap (policy : ExecPolicy) : Nat := min redactWindow policy.outputCapBytes

/-- The error output that markers are looked for in. -/
def flooredCap (plan : SandboxPlan) (policy : ExecPolicy) : Nat :=
  if plan.backend.hasSilentDegradationMode || plan.expectsStartSentinel then
    max policy.cap stderrMarkerScanFloor
  else policy.cap

/-- The sentinel's own line comes on top. -/
def errCaptureCap (plan : SandboxPlan) (policy : ExecPolicy) : Nat :=
  if plan.expectsStartSentinel then flooredCap plan policy + (utf8Len startSentinel + 1)
  else flooredCap plan policy

/-- The error output without the sentinel, and whether the sentinel is missing. -/
def cleanStderr (plan : SandboxPlan) (stderr : Bytes) : Bytes × Bool :=
  if plan.expectsStartSentinel then
    let r := stripMarkerLine stderr (toUtf8 startSentinel)
    (r.1, !r.2)
  else (stderr, false)

/-- Trim a stream to the cap of the policy. -/
def trimTo (cap : Nat) (bytes : Bytes) (truncated : Bool) : Bytes × Bool :=
  if bytes.length > cap then (bytes.take cap, true) else (bytes, truncated)

/-- The result of a plan, and whether its inner command was never started. -/
def runReporting (plan : SandboxPlan) (policy : ExecPolicy) :
    Launch → Except SandboxError (ExecutionResult × Bool)
  | .untrusted => .error (.untrustedLauncher plan.program)
  | .notSpawned => .error (.spawn plan.program)
  | .spawned child =>
    let stdout := collect (spawnCapture child.stdout policy.cap)
    let stderr := collect (spawnCapture child.stderr (errCaptureCap plan policy))
    -- a launcher that ran the command without a sandbox is refused before its status counts
    if plan.backend.stderrShowsSilentDegradation (fromUtf8Lossy stderr.1) then
      .error (.sandboxDegraded plan.backend.id)
    else
      match child.wait with
      | .error e => .error e
      | .ok (status, timedOut) =>
        let clean := cleanStderr plan stderr.1
        let capped := trimTo policy.cap clean.1 stderr.2
        let disp : Disposition :=
          { exitCode := status.code
            signal := status.signal
            timedOut := timedOut
            buildFailed :=
              detectBuildFailure plan.buildSignal status.code stdout.1 capped.1
            innerNeverStarted := clean.2 }
        .ok ({ outcome := classify disp
               exitCode := status.code
               durationMs := child.durationMs
               truncated := stdout.2 || capped.2
               stdout := redactCapped stdout.1 stdout.2
               stderr := redactCapped capped.1 capped.2 }, clean.2)

end Jitgen
