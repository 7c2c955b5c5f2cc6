import Jitgen.Framework.Text

/-!
# Unix path components

Splitting follows the normalisation of a standard path iterator: repeated separators and inner `.`
segments vanish, a leading `.` is kept, `..` is never resolved.
-/

namespace Jitgen

namespace UnixPath

inductive Component where
  | rootDir
  | curDir
  | parentDir
  | normal (s : Text)
  deriving DecidableEq

def isAbsolute (path : Text) : Bool := path.startsWith "/"

def segment (s : Text) : Option Component :=
  if s = [] ∨ s = "." then none
  else if s = ".." then some .parentDir
  else some (.normal s)

def components (path : Text) : List Component :=
  let body := (path.splitOn '/').filterMap segment
  if isAbsolute path then .rootDir :: body
  else if (path.splitOn '/').head? = some ("." : Text) then .curDir :: body
  else body

/-- Everything but the last component; `none` at a root and for the empty path. -/
def parent (path : Text) : Option (List Component) :=
  match (components path).getLast? with
  | none => none
  | some .rootDir => none
  | some _ => some (components path).dropLast

/-- The last component, when it is a plain name. -/
def fileName (path : Text) : Option Text :=
  match (components path).getLast? with
  | some (.normal s) => some s
  | _ => none

/-- What precedes and what follows the last dot of a name; a leading dot does not count. -/
def splitExtension (name : Text) : Text × Option Text :=
  let rest := (name.reverse.takeWhile (· != '.')).reverse
  let stem := name.take (name.length - rest.length - 1)
  if stem.isEmpty then (name, none) else (stem, some rest)

def fileStem (path : Text) : Option Text := (fileName path).map fun n => (splitExtension n).1

def extension (path : Text) : Option Text := (fileName path).bind fun n => (splitExtension n).2

def normals (cs : List Component) : List Text :=
  cs.filterMap fun c => match c with
    | .normal s => some s
    | _ => none

example : components "./a//b/../c.x/" =
    [.curDir, .normal "a", .normal "b", .parentDir, .normal "c.x"] := by decide

end UnixPath

end Jitgen
