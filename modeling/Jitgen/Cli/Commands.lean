import Jitgen.Cli.Hints
import Jitgen.Orchestrator.Analyze
import Jitgen.Orchestrator.BaselineFile
import Jitgen.Orchestrator.Run
import Jitgen.Orchestrator.StateRoot
import Jitgen.Report.Render

/-!
# Commands

A command is a program over the libraries and the streams of the process; it returns the exit code.
What is printed with a line of the error stream has no newline of its own.
-/

namespace Jitgen

open Text

def GateVerdict.findings : GateVerdict → List GatingFinding
  | .advisory f | .triggered f => f
  | .disabled | .pass => []

def GateError.display : GateError → Text
  | .unreadable path source =>
    ("baseline file is unreadable: " : Text) ++ path ++ " (" ++ source ++ ")"
  | .tooLarge path cap =>
    ("baseline file is too large: it exceeds the " : Text) ++ ofNat cap ++ "-byte cap (" ++ path ++ ")"
  | .malformed detail => ("baseline file is malformed: " : Text) ++ detail

/-- Indented JSON of what is not a run report. -/
class CommandJson where
  plan : AnalyzeReport → Except Text Text
  doctor : DoctorReport → Except Text Text

namespace Cli

inductive CliOp where
  | loadConfig (path repo : Text)
  | openRepo (path : Text)
  | drive (o : DriveOp RunOp)
  | land (repo : Text) (o : LandOp)
  | writeFile (path contents : Text)
  | readBaseline (path : Text)
  | doctor (o : Doctor.DoctorOp)
  | emit (text : Text)
  | print (text : Text)
  | eprintln (line : Text)

abbrev CliAns : CliOp → Type
  | .loadConfig _ _ => Except OrchestratorError TrustedConfig
  | .openRepo _ => Except OrchestratorError OpenedRepo
  | .drive o => DriveAns RunAns o
  | .land _ _ => Except OrchestratorError Unit
  | .writeFile _ _ => Except Text Unit
  | .readBaseline _ => Except Text Bytes
  | .doctor o => Doctor.DoctorAns o
  | .emit _ => Except Text Unit
  | .print _ => Unit
  | .eprintln _ => Unit

/-- A command that runs to its end. -/
abbrev CliProg (α : Type) := Prog CliAns α

/-- A part of a command that can stop it. -/
abbrev CliPart (ε α : Type) := Fallible ε CliAns α

abbrev ExitCode := Nat

def print (text : Text) : CliProg Unit := Prog.ask (CliOp.print text)

def eprintln (line : Text) : CliProg Unit := Prog.ask (CliOp.eprintln line)

def eprintAll : List Text → CliProg Unit
  | [] => return ()
  | line :: lines => do
    eprintln line
    eprintAll lines

def errorMsgCap : Nat := 8 * 1024

def safeForTerminal (msg : Text) (max : Nat) : Text := sanitizeLine msg max

/-- Print an error with a hint. -/
def fail (msg : Text) : CliProg ExitCode := do
  eprintln (safeForTerminal msg errorMsgCap)
  eprintln (userHint msg)
  return 1

/-- Why a command ends without its result: it was misused, or something failed. -/
inductive Refusal where
  | usage (msg : Text)
  | failed (msg : Text)

/-- An error of a library, said by a command. -/
def failedIn (command : Text) (e : OrchestratorError) : Refusal :=
  .failed (command ++ ": " ++ e.display)

/-- End a command whose result decides the exit code. -/
def finish {α : Type} (part : CliPart Refusal α) (code : α → ExitCode) : CliProg ExitCode := do
  match ← (part.run : CliProg (Except Refusal α)) with
  | .ok a => return code a
  | .error (.failed msg) => fail msg
  | .error (.usage msg) => do
    eprintln (safeForTerminal msg errorMsgCap)
    return 2

/-- Print what a command computes. -/
def printed (part : CliPart Refusal Text) : CliProg ExitCode :=
  finish (do
    let output ← part
    Fallible.lift (print output)) fun _ => 0

/-- A flag that is absent leaves the value to the environment and the file. -/
def flag (present : Bool) : Option Bool := if present then some true else none

/-- The base is the given file, which must be outside the repository, or the default. -/
def loadBase (configFile : Option Text) (repo : Text) : CliPart OrchestratorError TrustedConfig :=
  match configFile with
  | some path => Fallible.attempt (CliOp.loadConfig path repo) id id
  | none => pure .default

def resolveFor (s : Surroundings) (command : Text) (configFile : Option Text) (repo : Text)
    (flags : TrustedFlags) : CliPart Refusal TrustedConfig := do
  let base ← (loadBase configFile repo).mapError (failedIn command)
  Fallible.ofExcept ((resolveTrusted base (envLookup s.env) flags).mapError (failedIn command))

structure RunArgs where
  repo : Text
  base : Text
  head : Text
  mode : Option Mode
  strategy : Option Strategy
  write : Bool
  patchOut : Option Text
  maxTests : Option Nat
  sandbox : Option SandboxBackend
  dockerImage : Option Text
  unsafeLocalExecution : Bool
  shellAllowed : Bool
  stateDir : Option Text
  config : Option Text
  realLlm : Bool
  format : ReportFormat
  failOnCatch : Bool
  failThreshold : Binary64
  baseline : Option Text
  warnOnly : Bool

namespace RunArgs

variable (a : RunArgs)

def flags : TrustedFlags where
  mode := a.mode
  strategy := a.strategy
  sandboxBackend := a.sandbox
  unsafeLocalExecution := flag a.unsafeLocalExecution
  shellAllowed := flag a.shellAllowed
  stateDir := a.stateDir
  maxTests := a.maxTests
  realLlm := flag a.realLlm
  envAllowlistExtra := none
  dockerImage := a.dockerImage

/-- Whether the result is to be landed rather than reported. -/
def lands : Bool := a.write || a.patchOut.isSome

end RunArgs

def reportOnlyMsg : Text :=
  ("--write/--patch-out are invalid with --mode catch (catch mode is report-only; " : Text) ++
    "catching tests fail by design and cannot land)"

/-- Tests that catch cannot land. -/
def validateOutputRules (mode : Mode) (write patchOut : Bool) : Except Text Unit :=
  if mode = .catch && (write || patchOut) then .error reportOnlyMsg else .ok ()

inductive EmitGateError where
  | io (e : Text)
  | gate (e : GateError)

def EmitGateError.refusal : EmitGateError → Refusal
  | .io e => .failed (("jitgen run: cannot write report: " : Text) ++ e)
  | .gate e => .failed (("jitgen run: " : Text) ++ e.display)

def loadBaseline (path : Option Text) : CliPart EmitGateError Baseline :=
  match path with
  | some p => Fallible.attempt (CliOp.readBaseline p) EmitGateError.gate (Baseline.fromFile p)
  | none => pure .empty

/-- The lines about tests that have landed. -/
def landedLines (written : List Text) : List Text :=
  (("jitgen: wrote " : Text) ++ ofNat written.length ++ " test file(s) into the repo:") ::
    written.map fun path => ("  " : Text) ++ safeForTerminal path 512

def patchLine (out : Text) : Text := ("jitgen: wrote patch to " : Text) ++ safeForTerminal out 512

section

variable [ReportJson]

/-- The artifact goes out before the gate is looked at. -/
def emitThenGate (report : RunReport) (format : ReportFormat) (threshold : Binary64)
    (baselinePath : Option Text) (warnOnly failOnCatch : Bool) :
    CliPart EmitGateError GateVerdict := do
  Fallible.attempt (CliOp.emit (render report format)) EmitGateError.io id
  if failOnCatch then do
    let baseline ← loadBaseline baselinePath
    return gateExitCode report threshold baseline warnOnly true
  else return .disabled

/-- Land the accepted tests in the repository. -/
def landReport (repo : Text) (report : RunReport) : CliPart Refusal GateVerdict := do
  let landing : CliPart OrchestratorError (List Text) :=
    (applyToRepo report).hoist (CliOp.land repo)
  let written ← landing.mapError fun e =>
    .failed (("jitgen run: --write failed: " : Text) ++ e.display)
  Fallible.lift (print (unlines (landedLines written)))
  return .disabled

def writePatch (out : Text) (report : RunReport) : CliPart Refusal GateVerdict := do
  Fallible.attempt (CliOp.writeFile out (render report .patch))
    (fun e : Text => Refusal.failed
      (("jitgen run: cannot write patch to " : Text) ++ out ++ ": " ++ e)) id
  Fallible.lift (print (unlines [patchLine out]))
  return .disabled

/-- Hand out the result of a run. -/
def deliver (a : RunArgs) (report : RunReport) : CliPart Refusal GateVerdict :=
  if a.write then landReport a.repo report
  else
    match a.patchOut with
    | some out => writePatch out report
    | none => (emitThenGate report a.format a.failThreshold a.baseline a.warnOnly
        a.failOnCatch).mapError EmitGateError.refusal

end

def findingLine (f : GatingFinding) : Text :=
  ("  - tp=" : Text) ++ f.tpProbability.toFixed2 ++ "  " ++ safeForTerminal f.fingerprint 1024

def suppressionLine : Text :=
  ("jitgen: exit 3 (findings gate). Suppress a known catch by adding its fingerprint to a " : Text) ++
    "--baseline file (one per line), or re-run with --warn-only to keep it advisory. See " ++
    troubleshootingUrl ++ "."

/-- The lines about the findings of the gate. -/
def gateSummary (verdict : GateVerdict) (threshold : Binary64) : List Text :=
  let lines (label : Text) : List Text :=
    (("jitgen: " : Text) ++ label ++ ": " ++ ofNat verdict.findings.length ++
      " strong catch(es) at or above tp-probability " ++ threshold.toFixed2 ++ ", not baselined:") ::
      verdict.findings.map findingLine
  match verdict with
  | .disabled | .pass => []
  | .advisory _ => lines "advisory — findings surfaced (--warn-only), exiting 0"
  | .triggered _ => lines "findings gate tripped" ++ [suppressionLine]

/-- What is said at the end of a run: hints, then the findings of the gate. -/
def closingLines (a : RunArgs) (provider : ProviderConfig) (report : RunReport)
    (verdict : GateVerdict) : List Text :=
  let providerWasMock := provider.kind = .mock || !provider.realLlm
  let producedOutput := !report.accepted.isEmpty || !report.catches.isEmpty
  (mockEmptyRunHint providerWasMock (report.mode = .harden) producedOutput).toList ++
    (gateModifiersWithoutMasterNote a.failOnCatch a.warnOnly a.baseline.isSome).toList ++
    gateSummary verdict a.failThreshold

section

variable [Serde] [Digest] [WordChars] [ReportJson]

def runPart (s : Surroundings) (a : RunArgs) : CliPart Refusal GateVerdict := do
  let trusted ← resolveFor s "jitgen run" a.config a.repo a.flags
  Fallible.ofExcept ((validateOutputRules trusted.mode a.write a.patchOut.isSome).mapError fun msg =>
    .usage (("jitgen run: " : Text) ++ msg))
  let opts : RunOptions := ⟨a.repo, a.base, a.head, trusted⟩
  let drive : CliPart OrchestratorError RunReport := (runJitGeneration opts false).hoist CliOp.drive
  let report ← drive.mapError (failedIn "jitgen run")
  let verdict ← deliver a report
  Fallible.lift (eprintAll (closingLines a trusted.provider report verdict))
  return verdict

def cmdRun (s : Surroundings) (a : RunArgs) : CliProg ExitCode :=
  finish (runPart s a) fun verdict => if verdict.isFailure then 3 else 0

structure ResumeArgs where
  runId : Text
  stateDir : Option Text
  format : ReportFormat

/-- Resume a run, or load its report. -/
def reportPart (command : Text) (format : ReportFormat) (program : RunProg RunReport) :
    CliPart Refusal Text := do
  let drive : CliPart OrchestratorError RunReport := program.hoist CliOp.drive
  let report ← drive.mapError (failedIn command)
  return render report format

def cmdResume (s : Surroundings) (a : ResumeArgs) : CliProg ExitCode :=
  printed (reportPart "jitgen resume" a.format (resumeRun (s.stateRootFor a.stateDir) a.runId))

def cmdReport (s : Surroundings) (a : ResumeArgs) : CliProg ExitCode :=
  printed (reportPart "jitgen report" a.format (loadReport (s.stateRootFor a.stateDir) a.runId))

end

inductive AnalyzeFormat where
  | human
  | json
  deriving DecidableEq

structure AnalyzeArgs where
  repo : Text
  base : Text
  head : Text
  mode : Option Mode
  strategy : Option Strategy
  maxTests : Option Nat
  config : Option Text
  stateDir : Option Text
  format : AnalyzeFormat

def AnalyzeArgs.flags (a : AnalyzeArgs) : TrustedFlags :=
  { TrustedFlags.none with
    mode := a.mode
    strategy := a.strategy
    stateDir := a.stateDir
    maxTests := a.maxTests }

/-- What was serialized, with a newline. -/
def jsonOutput (failure : Text) (r : Except Text Text) : Except Refusal Text :=
  (r.mapError fun e => Refusal.failed (failure ++ e)).map (· ++ "\n")

section

variable [WordChars] [RepoYaml] [TreeSitter] [CommandJson]

def analyzePart (s : Surroundings) (differ : Differ) (a : AnalyzeArgs) : CliPart Refusal Text := do
  let trusted ← resolveFor s "jitgen analyze" a.config a.repo a.flags
  let opened ← Fallible.attempt (CliOp.openRepo a.repo) (failedIn "jitgen analyze") id
  let opts : AnalyzeOptions := ⟨a.repo, a.base, a.head, trusted⟩
  let report ← Fallible.ofExcept ((analyze differ opened opts).mapError (failedIn "jitgen analyze"))
  Fallible.ofExcept (match a.format with
    | .human => .ok report.renderHuman
    | .json => jsonOutput "jitgen analyze: cannot serialize: " (CommandJson.plan report))

def cmdAnalyze (s : Surroundings) (differ : Differ) (a : AnalyzeArgs) : CliProg ExitCode :=
  printed (analyzePart s differ a)

end

structure DoctorArgs where
  format : AnalyzeFormat
  config : Option Text
  realLlm : Bool
  requireSandbox : Bool
  requireRealLlm : Bool
  unsafeLocalExecution : Bool

/-- A provider that is required is asked for as well. -/
def DoctorArgs.flags (a : DoctorArgs) : TrustedFlags :=
  { TrustedFlags.none with realLlm := flag (a.realLlm || a.requireRealLlm) }

def doctorReady (prerequisitesOk : Bool) (strict : StrictVerdict) : Bool :=
  prerequisitesOk && strict.failures.isEmpty

/-- The host that a process runs on. -/
structure HostInfo where
  os : HostOs
  osName : Text

def schemaVersion : Nat := 1

section

variable [CommandJson]

def doctorPart (s : Surroundings) (host : HostInfo) (a : DoctorArgs) : CliPart Refusal Bool := do
  let resolved ← resolveFor s "jitgen doctor" a.config "." a.flags
  let probes : CliProg DoctorReport := (Doctor.runDoctor host.os host.osName jitgenVersion
    schemaVersion s.defaultStateRoot (Doctor.describeProvider s.env resolved.provider)).hoist
    CliOp.doctor
  let report ← Fallible.lift probes
  let output ← Fallible.ofExcept (match a.format with
    | .human => .ok (Doctor.renderHuman report)
    | .json => jsonOutput "jitgen doctor: " (CommandJson.doctor report))
  Fallible.lift (print output)
  let strict := Doctor.strictVerdict report
    ⟨a.requireSandbox, a.requireRealLlm, a.unsafeLocalExecution⟩
    (Doctor.realLlmReady s.env resolved.provider)
  Fallible.lift (eprintAll (strict.notes.map (("jitgen doctor: note: " : Text) ++ ·)))
  Fallible.lift (eprintAll (strict.failures.map (("jitgen doctor: NOT READY: " : Text) ++ ·)))
  return doctorReady (Doctor.prerequisitesOk report) strict

def cmdDoctor (s : Surroundings) (host : HostInfo) (a : DoctorArgs) : CliProg ExitCode :=
  finish (doctorPart s host a) fun ready => if ready then 0 else 1

end

inductive Command where
  | run (a : RunArgs)
  | analyze (a : AnalyzeArgs)
  | resume (a : ResumeArgs)
  | report (a : ResumeArgs)
  | doctor (a : DoctorArgs)

section

variable [Serde] [Digest] [WordChars] [RepoYaml] [TreeSitter] [ReportJson] [CommandJson]

def Command.dispatch (s : Surroundings) (host : HostInfo) (differ : Differ) :
    Command → CliProg ExitCode
  | .run a => cmdRun s a
  | .analyze a => cmdAnalyze s differ a
  | .resume a => cmdResume s a
  | .report a => cmdReport s a
  | .doctor a => cmdDoctor s host a

end

end Cli

end Jitgen
