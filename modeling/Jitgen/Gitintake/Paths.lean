import Jitgen.Framework.UnixPath

/-!
# Path policy of git intake

Vendored and secret-bearing paths are never read or checked out, and a path must name a file below
the root lexically.
-/

namespace Jitgen

open Text

def vendorSegments : List Text :=
  [".git", "node_modules", "target", "dist", "build", "out", ".next", ".nuxt", "vendor",
    "__pycache__", ".venv", "venv", ".gradle", "coverage", ".idea", ".vscode", "bazel-bin",
    "bazel-out", "bazel-testlogs"]

def secretNames : List Text :=
  [".env", ".npmrc", ".pypirc", ".netrc", "_netrc", ".git-credentials", ".pgpass"]

def secretPrefixes : List Text := ["id_rsa", "id_ed25519", "id_dsa", "id_ecdsa", "credentials"]

def secretSuffixes : List Text :=
  [".pem", ".key", ".p12", ".pfx", ".keystore", ".jks", ".ppk", ".gpg"]

def isVendored (path : Text) : Bool :=
  (path.splitOn '/').any fun seg => vendorSegments.contains (toAsciiLower seg)

/-- An exact secret name, or one with a dotted suffix. -/
def isSecretName (name entry : Text) : Bool :=
  match stripPrefix entry name with
  | some rest => rest.isEmpty || rest.startsWith "."
  | none => false

def isSecretLike (path : Text) : Bool :=
  let lower := toAsciiLower path
  let name := ((lower.splitOn '/').reverse.find? (!·.isEmpty)).getD []
  lower.hasSubstr ".cargo/credentials" || lower.hasSubstr ".aws/credentials" ||
    secretNames.any (isSecretName name) || secretPrefixes.any (startsWith name) ||
    secretSuffixes.any (endsWith name)

def isIgnored (path : Text) : Bool := isVendored path || isSecretLike path

/-- A drive-style prefix such as `C:`. -/
def hasDrivePrefix : Text → Bool
  | c :: ':' :: _ => isAsciiUpper c || isAsciiLower c
  | _ => false

/-- Whether the lexical check refuses a repository-relative path. -/
def rejectUnsafeRel (rel : Text) : Bool :=
  let comps := UnixPath.components rel
  rel.isEmpty || rel.contains '\\' || rel.endsWith "/" || hasDrivePrefix rel ||
    comps.any (fun c => c = .rootDir || c = .parentDir) || (UnixPath.normals comps).isEmpty

example : rejectUnsafeRel "src/a.rs" = false ∧ rejectUnsafeRel "../a" = true ∧
    rejectUnsafeRel "/etc/passwd" = true ∧ rejectUnsafeRel "./." = true := by decide

end Jitgen
