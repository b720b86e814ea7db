import TwinShell.Decimal.Reader
import TwinShell.Json.Printer
import TwinShell.Text.Basic

/-!
# Values

Everything a command computes is a value. Statements that produce nothing give `null`, which no variable may hold. Integers have 64 bits and are kept apart from floats; a vector is a list of floats, a list holds any values.

A value can be looked at in several ways: a text that spells a number counts as that number, a text such as `[1,2,3]` as a vector. These views are partial functions into `Option`.
-/

namespace TwinShell

/-- A value of the command language. -/
inductive Value where
  | null
  | bool (b : Bool)
  | int (n : Int64)
  | float (x : Float)
  | str (s : String)
  | vector (xs : List Float)
  | object (o : Object)
  | list (items : List Value)
  deriving Inhabited

/-- A number: a 64-bit integer or a float. -/
inductive Number where
  | int (n : Int64)
  | float (x : Float)
  deriving DecidableEq

namespace Number

def toFloat : Number → Float
  | .int n => Decimal.wordFloat n
  | .float x => x

def toValue : Number → Value
  | .int n => .int n
  | .float x => .float x

/-- Reads a number from a text, blanks around it apart. A text with none of the ASCII digits, or with one of the letters of `inf` and `nan`, is no number. -/
def read? (text : String) : Option Number :=
  let text := Text.trim text
  match Decimal.readWord? text with
  | some n => some (.int n)
  | none =>
    if text.toList.any Text.isDigit && !text.toList.any (fun c => "iInN".toList.contains c) then
      (Decimal.readFloat? text).map .float
    else none

end Number

/-- The text of a float: a whole number below `10 ^ 15` has no sign of zero, point or exponent. -/
def floatText (x : Float) : String :=
  if Decimal.isWhole x && x.abs < 1e15 then Decimal.intText x.toInt64.toInt
  else Decimal.showFloat x

def bracketed (texts : List String) : String := "[" ++ " ".intercalate texts ++ "]"

namespace Value

def typeName : Value → String
  | .null => "null"
  | .bool _ => "bool"
  | .int _ => "int"
  | .float _ => "float"
  | .str _ => "string"
  | .vector _ => "vector"
  | .object _ => "object"
  | .list _ => "list"

/-- Whether a variable may be given this value. -/
def isAssignable : Value → Bool
  | .null => false
  | .list _ => false
  | _ => true

/-- The truth value of a value; the texts `true` and `false` count. -/
def bool? : Value → Option Bool
  | .bool b => some b
  | .str s => if s = "true" then some true else if s = "false" then some false else none
  | _ => none

/-- The number a value stands for; a text that spells one counts. -/
def number? : Value → Option Number
  | .int n => some (.int n)
  | .float x => some (.float x)
  | .str s => Number.read? s
  | _ => none

/-- The number a value stands for, as a float. -/
def float? (v : Value) : Option Float := v.number?.map Number.toFloat

/-- The integer a value stands for; a float counts when it is whole, and the nearest 64-bit integer is taken. -/
def int? (v : Value) : Option Int64 :=
  match v.number? with
  | some (.int n) => some n
  | some (.float x) => if Decimal.isWhole x then some x.toInt64 else none
  | none => none

/-- Reads floats from the text between two square brackets. -/
def readVector? (text : String) : Option (List Float) :=
  match (Text.trim text).toList with
  | '[' :: rest =>
    if rest.getLast? = some ']' then
      let inner := String.ofList rest.dropLast
      if Text.trim inner = "" then some []
      else (Text.split ',' inner).mapM fun part => Decimal.readFloat? (Text.trim part)
    else none
  | _ => none

/-- The vector a value stands for; a list of numbers and a text such as `[1,2]` count. -/
def vector? : Value → Option (List Float)
  | .vector xs => some xs
  | .list items => items.mapM float?
  | .str s => readVector? s
  | _ => none

mutual

def toJson : Value → Json
  | .null => .null
  | .bool b => .bool b
  | .int n => Json.ofWord n
  | .float x => Json.ofFloat x
  | .str s => .str s
  | .vector xs => Json.ofVector xs
  | .object o => Json.ofObject o
  | .list items => .arr (toJsonItems items)

def toJsonItems : List Value → List Json
  | [] => []
  | v :: rest => toJson v :: toJsonItems rest

end

mutual

/-- The value of a JSON document. A number that is no 64-bit integer is a float, a nonempty array of numbers a vector, any other array a list. -/
def ofJson : Json → Value
  | .null => .null
  | .bool b => .bool b
  | .int n =>
    match Decimal.wordOfInt? n with
    | some n => .int n
    | none => .float ((Json.int n).float?.getD (0.0 / 0.0))
  | .float x => .float x
  | .str s => .str s
  | .arr items =>
    match items.mapM Json.float? with
    | some (x :: xs) => .vector (x :: xs)
    | _ => .list (ofJsonItems items)
  | .obj fields => .object (Dict.ofList fields)

def ofJsonItems : List Json → List Value
  | [] => []
  | json :: rest => ofJson json :: ofJsonItems rest

end

mutual

def text : Value → String
  | .null => "<nil>"
  | .bool b => if b then "true" else "false"
  | .int n => Decimal.intText n.toInt
  | .float x => floatText x
  | .str s => s
  | .vector xs => bracketed (xs.map floatText)
  | .object o => (Json.ofObject o).compact
  | .list items => bracketed (texts items)

def texts : List Value → List String
  | [] => []
  | v :: rest => text v :: texts rest

end

mutual

/-- What the user sees of a value: an object over several lines, the items of a list one below the other. -/
def render : Value → String
  | .object o => (Json.ofObject o).pretty
  | .list items => "\n".intercalate (renders items)
  | .null => text .null
  | .bool b => text (.bool b)
  | .int n => text (.int n)
  | .float x => text (.float x)
  | .str s => text (.str s)
  | .vector xs => text (.vector xs)

def renders : List Value → List String
  | [] => []
  | v :: rest => render v :: renders rest

end

/-- Whether a value is a vector or a list, and how long it is. -/
def length? : Value → Option Nat
  | .vector xs => some xs.length
  | .list items => some items.length
  | _ => none

end Value

end TwinShell
