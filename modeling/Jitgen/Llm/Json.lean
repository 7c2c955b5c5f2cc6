import Jitgen.Framework.Binary64

/-!
# Parsed JSON
-/

namespace Jitgen

/-- A parsed JSON value; a number is given by its binary64 value. -/
inductive Json where
  | null
  | bool (b : Bool)
  | number (asF64 : Binary64)
  | string (s : Text)
  | array (items : List Json)
  | object (fields : List (Text × Json))

/-- The strict JSON reader. -/
class JsonText where
  fromStr : Text → Option Json

def Json.get : Json → Text → Option Json
  | object fields, key => fields.lookup key
  | _, _ => none

def Json.asF64 : Json → Option Binary64
  | number x => some x
  | _ => none

def Json.asStr : Json → Option Text
  | string s => some s
  | _ => none

end Jitgen
