import TwinShell.Dict

/-!
# JSON documents

Objects of the hierarchy, requests to its service and messages to the viewer are JSON documents. Whole numbers and floats are kept apart: `1` and `1.0` are different documents. The fields of an object are sorted by key, with each key at most once; `Object` carries that order in its type.
-/

namespace TwinShell

/-- A JSON document. -/
inductive Json where
  | null
  | bool (b : Bool)
  | int (n : Int)
  | float (x : Float)
  | str (s : String)
  | arr (items : List Json)
  | obj (fields : List (String × Json))
  deriving Inhabited

/-- An object of the hierarchy: named JSON fields. -/
abbrev Object : Type := Dict Json

namespace Json

def ofObject (object : Object) : Json := .obj object.entries

/-- The document of a float; one that is not finite has no number in JSON and becomes `null`. -/
def ofFloat (x : Float) : Json := if x.isFinite then .float x else .null

def ofVector (xs : List Float) : Json := .arr (xs.map ofFloat)

def ofWord (n : Int64) : Json := .int n.toInt

def object? : Json → Option Object
  | .obj fields => some (Dict.ofList fields)
  | _ => none

def items? : Json → Option (List Json)
  | .arr items => some items
  | _ => none

def text? : Json → Option String
  | .str s => some s
  | _ => none

def float? : Json → Option Float
  | .int n => some (if n < 0 then -Float.ofNat n.natAbs else Float.ofNat n.toNat)
  | .float x => some x
  | _ => none

def isNull : Json → Bool
  | .null => true
  | _ => false

def isObject : Json → Bool
  | .obj _ => true
  | _ => false

/-- The field `key` of a document that is an object. -/
def field? (json : Json) (key : String) : Option Json :=
  match json with
  | .obj fields => Assoc.find? key fields
  | _ => none

mutual

/-- Equality of documents. Numbers are equal when they are of the same sort and have the same value, so a NaN equals nothing. -/
def same : Json → Json → Bool
  | .null, .null => true
  | .bool a, .bool b => a == b
  | .int a, .int b => a == b
  | .float a, .float b => a == b
  | .str a, .str b => a == b
  | .arr as, .arr bs => sameItems as bs
  | .obj as, .obj bs => sameFields as bs
  | _, _ => false

def sameItems : List Json → List Json → Bool
  | [], [] => true
  | a :: as, b :: bs => same a b && sameItems as bs
  | _, _ => false

def sameFields : List (String × Json) → List (String × Json) → Bool
  | [], [] => true
  | a :: as, b :: bs => sameField a b && sameFields as bs
  | _, _ => false

def sameField : String × Json → String × Json → Bool
  | (k, a), (l, b) => k == l && same a b

end

end Json

end TwinShell
