import Jitgen.Adapters.Discovery
import Jitgen.Context.Packager
import Jitgen.Orchestrator.Checkout

/-!
# Snapshots and context bundles

The head snapshot and the context of a target are built from git objects. Changed files and known
manifests are read in advance.
-/

namespace Jitgen

open Text

/-- Paths of the blobs of a tree, in tree order; `raw` counts every entry, whatever its kind. -/
def blobPaths (what : Text) (fileCap entryCap : Nat) (rejectUnsafe : Bool) :
    List TreeEntry → (raw : Nat) → (paths : List Text) → Except OrchestratorError (List Text)
  | [], _, paths => .ok paths
  | e :: rest, raw, paths =>
    if entryCap < raw + 1 then
      .error (.invalid what
        (("tree walk exceeds the " : Text) ++ ofNat entryCap ++ "-entry checkout cap"))
    else
      match e.object, e.path with
      | .blob _, some rel =>
        if !isIgnored rel && (!rejectUnsafe || !rejectUnsafeRel rel) then
          if fileCap < paths.length + 1 then
            .error (.invalid what
              (("tree exceeds the " : Text) ++ ofNat fileCap ++ "-file checkout cap"))
          else blobPaths what fileCap entryCap rejectUnsafe rest (raw + 1) (paths ++ [rel])
        else blobPaths what fileCap entryCap rejectUnsafe rest (raw + 1) paths
      | _, _ => blobPaths what fileCap entryCap rejectUnsafe rest (raw + 1) paths

theorem collectBlobPaths_eq (caps : CheckoutCaps) (tree : List TreeEntry) (raw : Nat)
    (paths : List Text) :
    collectBlobPaths caps tree raw paths =
      blobPaths "overlay" caps.materializedFiles caps.treeEntries true tree raw paths := by
  induction tree generalizing raw paths with
  | nil => rfl
  | cons e tree ih =>
    obtain ⟨path, object⟩ := e
    cases object <;> cases path <;> simp only [collectBlobPaths, blobPaths, materializedPath, ih]
    rename_i rel
    cases isIgnored rel <;> cases rejectUnsafeRel rel <;> rfl

/-- The path of an entry that a listing keeps. -/
def listedPath (rejectUnsafe : Bool) (e : TreeEntry) : Option Text :=
  match e.object, e.path with
  | .blob _, some rel =>
    if !isIgnored rel && (!rejectUnsafe || !rejectUnsafeRel rel) then some rel else none
  | _, _ => none

private theorem blobPaths_cons {what : Text} {fileCap entryCap raw : Nat} {rejectUnsafe : Bool}
    {e : TreeEntry} {tree : List TreeEntry} {paths : List Text} (hraw : raw + 1 ≤ entryCap) :
    blobPaths what fileCap entryCap rejectUnsafe (e :: tree) raw paths =
      match listedPath rejectUnsafe e with
      | none => blobPaths what fileCap entryCap rejectUnsafe tree (raw + 1) paths
      | some rel =>
        if fileCap < paths.length + 1 then
          .error (.invalid what
            (("tree exceeds the " : Text) ++ ofNat fileCap ++ "-file checkout cap"))
        else blobPaths what fileCap entryCap rejectUnsafe tree (raw + 1) (paths ++ [rel]) := by
  obtain ⟨path, object⟩ := e
  rw [blobPaths, if_neg (Nat.not_lt_of_le hraw)]
  cases object <;> cases path <;> simp only [listedPath]
  rename_i rel
  split_ifs <;> rfl

/-- A listing that does not hit its caps is the kept paths in tree order. -/
theorem blobPaths_eq_ok_iff {what : Text} {fileCap entryCap raw : Nat} {rejectUnsafe : Bool}
    {tree : List TreeEntry} {paths out : List Text} (hraw : raw ≤ entryCap)
    (hpaths : paths.length ≤ fileCap) :
    blobPaths what fileCap entryCap rejectUnsafe tree raw paths = .ok out ↔
      raw + tree.length ≤ entryCap ∧ out.length ≤ fileCap ∧
        out = paths ++ tree.filterMap (listedPath rejectUnsafe) := by
  induction tree generalizing raw paths with
  | nil =>
    rw [blobPaths, Except.ok.injEq, List.filterMap_nil, List.append_nil, eq_comm]
    exact ⟨fun h => ⟨hraw, h ▸ hpaths, h⟩, fun h => h.2.2⟩
  | cons e tree ih =>
    rw [List.length_cons, ← Nat.add_assoc, Nat.add_right_comm]
    by_cases hcap : raw + 1 ≤ entryCap
    · rw [blobPaths_cons hcap]
      cases hkept : listedPath rejectUnsafe e with
      | none =>
        rw [List.filterMap_cons_none hkept]
        exact ih hcap hpaths
      | some rel =>
        rw [List.filterMap_cons_some hkept, List.append_cons paths rel]
        simp only
        by_cases hfull : fileCap < paths.length + 1
        · rw [if_pos hfull]
          refine ⟨nofun, fun ⟨_, hlen, hout⟩ => absurd hfull ?_⟩
          rw [hout, List.length_append, List.length_append, List.length_singleton] at hlen
          omega
        · rw [if_neg hfull]
          refine ih hcap ?_
          rw [List.length_append, List.length_singleton]
          omega
    · rw [blobPaths, if_pos (Nat.lt_of_not_le hcap)]
      exact ⟨nofun, fun h => absurd h.1 (by omega)⟩

/-- Every path of a tree that is not ignored. -/
def listTreePaths (repo : Repository) (oid : Oid) : Except OrchestratorError (List Text) :=
  match repo.tree oid with
  | .error e => .error (.git2 e)
  | .ok tree => blobPaths "snapshot" CheckoutCaps.production.materializedFiles
      CheckoutCaps.production.treeEntries false tree.entries 0 []

def manifestNames : List Text :=
  ["package.json", "pnpm-lock.yaml", "yarn.lock", "package-lock.json", "tsconfig.json",
    "Cargo.toml", "Cargo.lock", "pom.xml", "build.gradle", "build.gradle.kts", "settings.gradle",
    "pyproject.toml", "setup.py", "setup.cfg", "pytest.ini", "tox.ini", "go.mod", ".jitgen.yaml"]

def basename (path : Text) : Text := ((path.splitOn '/').getLast?).getD path

/-- Contents of the paths to read in advance. -/
def snapshotFiles (repo : Repository) (head : Oid) (changed : List Text) :
    List Text → Except OrchestratorError (List (Text × Bytes))
  | [] => .ok []
  | p :: ps =>
    if changed.contains p || manifestNames.contains (basename p) then
      match readBlobAt repo head p with
      | .error e => .error (.git e.display)
      | .ok none => snapshotFiles repo head changed ps
      | .ok (some bytes) => (snapshotFiles repo head changed ps).map ((p, bytes) :: ·)
    else snapshotFiles repo head changed ps

def buildSnapshot (repo : Repository) (head : Oid) (changes : ChangeSet) :
    Except OrchestratorError RepoSnapshot := do
  let paths ← listTreePaths repo head
  let files ← snapshotFiles repo head (changes.files.map FileChange.path) paths
  return .new paths files

def SymbolKind.debug : SymbolKind → Text
  | .function => "Function"
  | .method => "Method"
  | .class => "Class"
  | .module => "Module"
  | .hunk => "Hunk"

def ChangeKind.debug : ChangeKind → Text
  | .added => "Added"
  | .modified => "Modified"
  | .deleted => "Deleted"
  | .renamed => "Renamed"

def rangeText (r : LineRange) : Text := ofNat r.start ++ "-" ++ ofNat r.end

/-- The line of a diff summary about one file. -/
def changeSummary (f : FileChange) : Text :=
  "  " ++ f.kind.debug ++ " " ++ f.path ++
    (match f.oldPath with
      | some old => (" (was " : Text) ++ old ++ ")"
      | none => []) ++
    (if f.hunks.isEmpty then []
      else ("  changed lines: " : Text) ++ join ", " (f.hunks.map rangeText)) ++ "\n"

/-- Synthesize a short summary of the changes to the target's file. -/
def diffSummary (target : Target) (changes : ChangeSet) : Text :=
  "Change under test: " ++ target.path ++ "\n" ++
    (changes.files.filter (·.path = target.path)).flatMap changeSummary

/-- A hint at what to test, for when the file is cut. -/
def signatureHint (target : Target) (sym : Text) : Text :=
  "target symbol: " ++ sym ++ " (" ++ target.kind.debug ++ ") at " ++ target.path ++ ":" ++
    rangeText target.span

variable [WordChars]

/-- The context bundle of a target. -/
def buildContext (snapshot : RepoSnapshot) (target : Target) (changes : ChangeSet) (mode : Mode)
    (budget : ContextBudget) : ContextBundle :=
  let b := ContextBuilder.new budget
  let b := match snapshot.readText target.path with
    | some content => (b.add .changedCode (some target.path) content).1
    | none => b
  let b := match target.symbol with
    | some sym => (b.add .signature (some target.path) (signatureHint target sym)).1
    | none => b
  let b := if mode = .catch then (b.add .diffSummary none (diffSummary target changes)).1 else b
  b.build target.id

/-- The change set between two revisions, with the snapshot of the head. -/
def intake (differ : Differ) (repo : Repository) (base head : Text) :
    Except OrchestratorError (ChangeSet × RepoSnapshot) :=
  match diffRevisions differ repo base head with
  | .error e => .error (.git e.display)
  | .ok changes => (buildSnapshot repo changes.head changes).map (changes, ·)

end Jitgen
