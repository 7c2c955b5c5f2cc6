import Jitgen.Adapters.Glob
import Jitgen.Adapters.Symbols
import Jitgen.Core.Change
import Jitgen.Core.Config

/-!
# Adapters and change analysis

Each adapter maps the changed files it owns to targets. The registry collects the targets of the
detected adapters, leaves every path to the adapter that found a target in it first, and numbers
what is left.
-/

namespace Jitgen

open Text

/-- Paths at the head revision, with the contents of the files read in advance. -/
structure RepoSnapshot where
  paths : List Text
  read : Text → Option Bytes
  read_present : ∀ p b, read p = some b → p ∈ paths

namespace RepoSnapshot

/-- A later entry of one path replaces an earlier one. -/
def new (paths : List Text) (files : List (Text × Bytes)) : RepoSnapshot where
  paths := paths ++ files.map Prod.fst
  read := fun p => files.reverse.lookup p
  read_present := by
    intro p b h
    have hmem : (p, b) ∈ files.reverse := by
      obtain ⟨l₁, l₂, heq, -⟩ := List.lookup_eq_some_iff.mp h
      rw [heq]
      simp
    exact List.mem_append_right _ (List.mem_map_of_mem (List.mem_reverse.mp hmem))

/-- Contents of a file that was read in advance and is UTF-8. -/
def readText (r : RepoSnapshot) (path : Text) : Option Text := (r.read path).bind fromUtf8

def has (r : RepoSnapshot) (path : Text) : Bool := r.paths.contains path

def hasExt (r : RepoSnapshot) (ext : Text) : Bool := r.paths.any (·.endsWith ('.' :: ext))

end RepoSnapshot

structure DetectionResult where
  detected : Bool
  evidence : List Text
  deriving DecidableEq

/-- Detected when there is evidence. -/
def DetectionResult.ofEvidence (ev : List Text) : DetectionResult := ⟨!ev.isEmpty, ev⟩

/-- A language adapter: the files it owns, each with the grammar to extract symbols by. -/
structure LanguageAdapter where
  id : AdapterId
  detect : RepoSnapshot → DetectionResult
  owns : Text → Option (Option Lang)

/-- Evidence that a marker gives when it holds. -/
def evidenceIf (c : Bool) (ev : Text) : List Text := if c then [ev] else []

/-- Files of one language only. -/
def ownsLang (lang : Lang) (path : Text) : Option (Option Lang) :=
  if Lang.fromPath path = some lang then some (some lang) else none

def rustAdapter : LanguageAdapter where
  id := "rust"
  detect := fun repo => .ofEvidence
    (evidenceIf (repo.has "Cargo.toml") "Cargo.toml" ++ evidenceIf (repo.hasExt "rs") "*.rs sources")
  owns := ownsLang .rust

def pythonMarkers : List Text :=
  ["pyproject.toml", "setup.py", "setup.cfg", "pytest.ini", "tox.ini"]

def pythonAdapter : LanguageAdapter where
  id := "python"
  detect := fun repo => .ofEvidence
    (pythonMarkers.filter repo.has ++ evidenceIf (repo.hasExt "py") "*.py sources")
  owns := ownsLang .python

def javaAdapter : LanguageAdapter where
  id := "java"
  detect := fun repo => .ofEvidence
    (evidenceIf (repo.has "pom.xml") "pom.xml" ++
      evidenceIf (repo.has "build.gradle" || repo.has "build.gradle.kts") "build.gradle" ++
      evidenceIf (repo.hasExt "java") "*.java sources")
  owns := ownsLang .java

def typeScriptExts : List Text := ["ts", "tsx", "js", "jsx", "mjs", "cjs", "mts", "cts"]

def typeScriptAdapter : LanguageAdapter where
  id := "typescript"
  detect := fun repo => .ofEvidence
    (evidenceIf (repo.has "package.json") "package.json" ++
      evidenceIf (repo.has "tsconfig.json") "tsconfig.json" ++
      evidenceIf (typeScriptExts.any repo.hasExt) "JS/TS sources")
  owns := fun path =>
    match Lang.fromPath path with
    | some .typeScript => some (some .typeScript)
    | some .tsx => some (some .tsx)
    | _ => none

def reservedBuiltinIds : List Text := ["rust", "python", "java", "typescript"]

namespace GenericAdapter

/-- A repository may not claim a built-in id. -/
def adapterId (config : RepoConfig) : AdapterId :=
  let raw := config.id.getD "generic"
  if reservedBuiltinIds.contains raw then ("generic-" : Text) ++ raw else raw

def owns (config : RepoConfig) (path : Text) : Bool :=
  config.extensions.contains (fileExtension path) &&
    !config.exclude.any (globMatch · path) &&
    (config.include.isEmpty || config.include.any (globMatch · path))

def grammars : List (Text × Lang) :=
  [("rust", .rust), ("python", .python), ("java", .java), ("typescript", .typeScript),
    ("javascript", .typeScript), ("tsx", .tsx)]

def grammarLang (config : RepoConfig) : Option Lang := config.grammar.bind fun g => grammars.lookup g

end GenericAdapter

/-- The adapter that a repository configures. -/
def genericAdapter (config : RepoConfig) : LanguageAdapter where
  id := GenericAdapter.adapterId config
  detect := fun _ => .ofEvidence
    (evidenceIf (config.id.isSome && (!config.extensions.isEmpty || !config.testArgv.isEmpty))
      ".jitgen.yaml generic adapter")
  owns := fun path =>
    if GenericAdapter.owns config path then some (GenericAdapter.grammarLang config) else none

section

variable [TreeSitter]

/-- Targets of the changed files that an adapter owns; a deleted file has no head content. -/
def analyzeOwned (a : LanguageAdapter) (repo : RepoSnapshot) :
    List FileChange → (seq : Nat) → List Target
  | [], _ => []
  | fc :: rest, seq =>
    if fc.kind = .deleted then analyzeOwned a repo rest seq
    else
      match a.owns fc.path with
      | none => analyzeOwned a repo rest seq
      | some lang =>
        let found := extractTargets lang ((repo.read fc.path).getD []) fc.path a.id fc.hunks seq
        found.1 ++ analyzeOwned a repo rest found.2

def LanguageAdapter.analyzeChanges (a : LanguageAdapter) (repo : RepoSnapshot)
    (changes : ChangeSet) : List Target :=
  analyzeOwned a repo changes.files 0

end

abbrev AdapterRegistry := List LanguageAdapter

/-- Leave each path to the adapter of the first target in it. -/
def keepOwned : (owners : List (Text × AdapterId)) → List Target → List Target
  | _, [] => []
  | owners, t :: ts =>
    match owners.lookup t.path with
    | some owner => if owner = t.adapter then t :: keepOwned owners ts else keepOwned owners ts
    | none => t :: keepOwned ((t.path, t.adapter) :: owners) ts

namespace AdapterRegistry

/-- The specific adapters stand before the generic one. -/
def withBuiltins (config : RepoConfig) : AdapterRegistry :=
  [rustAdapter, pythonAdapter, javaAdapter, typeScriptAdapter, genericAdapter config]

def detect (reg : AdapterRegistry) (repo : RepoSnapshot) : List (AdapterId × DetectionResult) :=
  (reg.map fun a => (a.id, a.detect repo)).filter (·.2.detected)

def adapter (reg : AdapterRegistry) (id : AdapterId) : Option LanguageAdapter :=
  reg.find? fun a => a.id = id

variable [TreeSitter]

/-- Targets of all detected adapters, one adapter after the other. -/
def foundTargets (reg : AdapterRegistry) (repo : RepoSnapshot) (changes : ChangeSet) : List Target :=
  ((reg.detect repo).map Prod.fst).flatMap fun id =>
    match reg.adapter id with
    | some a => a.analyzeChanges repo changes
    | none => []

/-- Analyze a change set and number its targets. -/
def analyze (reg : AdapterRegistry) (repo : RepoSnapshot) (changes : ChangeSet) : List Target :=
  (keepOwned [] (reg.foundTargets repo changes)).mapIdx fun i t => { t with id := nextId i }

end AdapterRegistry

end Jitgen
