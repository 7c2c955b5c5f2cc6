import Jitgen.Core.RepoYaml
import Jitgen.Orchestrator.TargetSel

/-!
# Planning

A run and a dry run find their targets alike: from the change set between two revisions, the
snapshot of the head and the configuration in the head, ranked up to a budget. A dry run shows what
it found, redacted.
-/

namespace Jitgen

open Text

section

variable [RepoYaml]

/-- The configuration in a revision, with what to warn of. -/
def loadRepoConfig (repo : Repository) (head : Oid) :
    Except OrchestratorError (RepoConfig × List Text) :=
  match readBlobAt repo head ".jitgen.yaml" with
  | .error e => .error (.git e.display)
  | .ok none => .ok (.default, [])
  | .ok (some bytes) =>
    match fromUtf8 bytes with
    | none => .error (.config ".jitgen.yaml is not valid UTF-8")
    | some text => (RepoConfig.parseYaml text).mapError .core

/-- What is known of a change before anything is generated. -/
structure Plan where
  changes : ChangeSet
  snapshot : RepoSnapshot
  config : RepoConfig
  configWarnings : List Text
  ranked : List RankedTarget

variable [TreeSitter]

/-- The plan for the change between two revisions. -/
def plan (differ : Differ) (repo : Repository) (base head : Oid) (maxTests : Nat) :
    Except OrchestratorError Plan := do
  let changes ← (diffRevisions differ repo base head).mapError (OrchestratorError.git ·.display)
  let snapshot ← buildSnapshot repo head changes
  let (config, configWarnings) ← loadRepoConfig repo head
  let targets := (AdapterRegistry.withBuiltins config).analyze snapshot changes
  return ⟨changes, snapshot, config, configWarnings, TargetSel.select targets maxTests⟩

end

structure AnalyzeOptions where
  repo : Text
  base : Text
  head : Text
  trusted : TrustedConfig

structure ChangedFile where
  path : Text
  kind : Text
  hunks : Nat

structure DetectedAdapter where
  id : Text
  evidence : List Text

structure AnalyzedTarget where
  id : Text
  adapter : Text
  path : Text
  symbol : Option Text
  kind : SymbolKind
  score : Binary64
  rationale : Text

structure AnalyzeReport where
  repo : Text
  base : Text
  head : Text
  mode : Mode
  changedFiles : List ChangedFile
  detectedAdapters : List DetectedAdapter
  targets : List AnalyzedTarget

/-- A repository that was opened, with the directory it is checked out in. -/
structure OpenedRepo where
  repository : Repository
  workdir : Option Text

section

variable [WordChars]

def changedFile (f : FileChange) : ChangedFile where
  path := (redact f.path).text
  kind := f.kind.debug
  hunks := f.hunks.length

def detectedAdapter (d : AdapterId × DetectionResult) : DetectedAdapter where
  id := d.1
  evidence := d.2.evidence.map (redact · |>.text)

def analyzedTarget (rt : RankedTarget) : AnalyzedTarget where
  id := rt.target.id
  adapter := rt.target.adapter
  path := (redact rt.target.path).text
  symbol := rt.target.symbol.map (redact · |>.text)
  kind := rt.target.kind
  score := rt.score
  rationale := (redact rt.rationale).text

variable [RepoYaml] [TreeSitter]

/-- Plan without executing anything. -/
def analyze (differ : Differ) (opened : OpenedRepo) (opts : AnalyzeOptions) :
    Except OrchestratorError AnalyzeReport := do
  let repo := opened.repository
  let baseOid ← (resolveCommit repo opts.base).mapError (OrchestratorError.git ·.display)
  let headOid ← (resolveCommit repo opts.head).mapError (OrchestratorError.git ·.display)
  let p ← plan differ repo baseOid headOid opts.trusted.maxTests
  let detected := (AdapterRegistry.withBuiltins p.config).detect p.snapshot
  return ⟨opened.workdir.getD [], baseOid, headOid, opts.trusted.mode,
    p.changes.files.map changedFile, detected.map detectedAdapter, p.ranked.map analyzedTarget⟩

end

namespace AnalyzeReport

def fieldCap : Nat := 512

def shown (s : Text) : Text := sanitizeLine s fieldCap

def fileRow (f : ChangedFile) : Text :=
  "  " ++ f.kind ++ " " ++ shown f.path ++ " (" ++ ofNat f.hunks ++ " hunks)\n"

def adapterRow (a : DetectedAdapter) : Text :=
  "  " ++ shown a.id ++ " — " ++ join ", " (a.evidence.map shown) ++ "\n"

def targetRow (t : AnalyzedTarget) : Text :=
  "  [" ++ t.score.toFixed2 ++ "] " ++ shown t.id ++ " " ++ shown t.adapter ++ " " ++
    t.kind.debug ++ " " ++ shown (t.symbol.getD "(hunk)") ++ "\n        " ++ shown t.rationale ++ "\n"

def renderHuman (r : AnalyzeReport) : Text :=
  "jitgen analyze (NON-EXECUTING plan) — mode " ++ r.mode.asStr ++ "\n" ++
    ("repo: " ++ shown r.repo ++ "\nbase: " ++ shown r.base ++ "  head: " ++ shown r.head ++ "\n\n") ++
    ("Changed files (" ++ ofNat r.changedFiles.length ++ "):\n") ++ r.changedFiles.flatMap fileRow ++
    ("\nDetected adapters (" ++ ofNat r.detectedAdapters.length ++ "):\n") ++
    r.detectedAdapters.flatMap adapterRow ++
    ("\nSelected targets (" ++ ofNat r.targets.length ++ "):\n") ++ r.targets.flatMap targetRow ++
    "\n(analyze does not run tests, call a real LLM, or modify anything.)\n"

end AnalyzeReport

end Jitgen
