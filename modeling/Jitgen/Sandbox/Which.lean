import Jitgen.Framework.FileSystem

/-!
# Launchers

Which file a launcher's name stands for. The host is given by its files, by what looking at them is
allowed, and by what a process inherits.
-/

namespace Jitgen

open Text UnixPath

structure LauncherHost where
  fs : FileSystem
  /-- Permission bits of what stands at a place. -/
  mode : Location → Nat
  /-- Directories in which this process may not look names up. -/
  closed : Location → Bool
  /-- The current directory and the search path that the process inherited. -/
  cwd : Location
  path : Text

structure FileMetadata where
  isFile : Bool
  mode : Nat

/-- Where the system begins to resolve a path. -/
def LauncherHost.base (host : LauncherHost) (path : Text) : Location :=
  if isAbsolute path then [] else host.cwd

/-- The place that a path leads to when links are followed. -/
def LauncherHost.locate (host : LauncherHost) (path : Text) : Except Errno Location :=
  if path.contains '\x00' then .error .nulByte
  else if path = [] then .error .notFound
  else
    let walk := host.fs.tree.walk true (host.base path) (FileTree.pieces path)
    if walk.steps.any fun s => host.closed s.place.dropLast then .error .denied else walk.result

def LauncherHost.metadata (host : LauncherHost) (path : Text) : Except Errno FileMetadata :=
  match host.locate path with
  | .error e => .error e
  | .ok loc =>
    match host.fs.tree.entry loc with
    | some (.file _) => .ok ⟨true, host.mode loc⟩
    | some _ => .ok ⟨false, host.mode loc⟩
    | none => .error .notFound

namespace Which

/-- Directories of launchers, in search order. -/
def trustedBinDirs : List Text :=
  ["/usr/bin", "/bin", "/usr/sbin", "/sbin", "/usr/local/bin", "/opt/homebrew/bin"]

def hasOnlyNormalComponents (p : Text) : Bool :=
  (components p).all fun
    | .rootDir | .normal _ => true
    | _ => false

/-- The segments behind the root of an absolute path, none of which is empty or a dot. -/
def hasNoCurdirOrEmptySegments (program : Text) : Bool :=
  ((program.splitOn '/').drop 1).all fun s => !s.isEmpty && s != ("." : Text)

def parentIsTrustedDir (p : Text) : Bool :=
  match parent p with
  | some comps => trustedBinDirs.any fun d => components d == comps
  | none => false

def isExecutableFile (host : LauncherHost) (p : Text) : Bool :=
  match host.metadata p with
  | .ok m => m.isFile && m.mode &&& 0o111 != 0
  | .error _ => false

def resolveTrusted (host : LauncherHost) (program : Text) : Option Text :=
  if program.contains '/' then
    if isAbsolute program && hasNoCurdirOrEmptySegments program &&
        hasOnlyNormalComponents program && parentIsTrustedDir program &&
        isExecutableFile host program then
      some program
    else none
  else (trustedBinDirs.map fun dir => UnixPath.push dir program).find? (isExecutableFile host)

end Which

end Jitgen
