import TwinShell.Value.Basic

/-!
# Templates

A template is a text with directives: `%v` and `%s` stand for any value, `%d` for an integer, `%f`, `%.2f` and `%g` for a number, and `%%` is a percent sign. A template is first cut into pieces; filling it then takes one argument for every directive but `%%`, from left to right. Arguments that are left over do not matter.
-/

namespace TwinShell.Template

inductive Error where
  | missingArgument (template : String)
  | badArgument (verb : Char) (expected found : String)
  | unknownVerb (verb : Char)
  | trailing (template : String)
  /-- No number is written with so many places; a session does not survive the attempt. -/
  | tooManyPlaces (places : Nat)
  deriving DecidableEq

def Error.message : Error → String
  | .missingArgument template => "not enough arguments for format \"" ++ template ++ "\""
  | .badArgument verb expected found =>
    "%" ++ String.singleton verb ++ " expects " ++ expected ++ ", got " ++ found
  | .unknownVerb verb => "unknown format verb %" ++ String.singleton verb
  | .trailing template => "format \"" ++ template ++ "\" ends with a lone %"
  | .tooManyPlaces places => "cannot write a number with " ++ Decimal.natText places ++ " places"

/-- The number of places that the digits after the point of a directive ask for. No digits, or a number beyond 64 bits, ask for none. -/
def precisionOf (digits : List Char) : Nat :=
  let n := Decimal.natOfDigits digits
  if n < 0x10000000000000000 then n else 0

/-- Reads the optional precision that follows a percent sign. -/
def takePrecision : List Char → Option Nat × List Char
  | '.' :: cs => (some (precisionOf (cs.takeWhile Text.isDigit)), cs.dropWhile Text.isDigit)
  | cs => (none, cs)

/-- The places written for `%f` when the directive names none. -/
def defaultPlaces : Nat := 6

/-- The most places a number can be written with. -/
def maxPlaces : Nat := 65535

def withPlaces (places : Nat) (x : Float) : Except Error String :=
  if maxPlaces < places then .error (.tooManyPlaces places)
  else .ok (Decimal.fixedPlaces places x)

/-- The text of an argument under a directive. -/
def fill (verb : Char) (precision : Option Nat) (arg : Value) : Except Error String :=
  match verb with
  | 'v' | 's' => .ok arg.text
  | 'd' =>
    match arg.number? with
    | some (.int n) => .ok (Decimal.intText n.toInt)
    | _ => .error (.badArgument verb "an integer" arg.typeName)
  | 'f' =>
    match arg.float? with
    | some x => withPlaces (precision.getD defaultPlaces) x
    | none => .error (.badArgument verb "a number" arg.typeName)
  | 'g' =>
    match arg.float? with
    | some x => .ok (floatText x)
    | none => .error (.badArgument verb "a number" arg.typeName)
  | _ => .error (.unknownVerb verb)

theorem length_takePrecision (cs : List Char) : (takePrecision cs).2.length ≤ cs.length := by
  unfold takePrecision
  split
  · rename_i cs
    have := (List.dropWhile_suffix Text.isDigit (l := cs)).length_le
    simp only [List.length_cons]
    omega
  · exact Nat.le_refl _

/-- Fills what is left of a template from the arguments that are left; `template` is the whole, for error reports. -/
def fillFrom (template : String) (args : List Value) (cs : List Char) : Except Error (List Char) :=
  match cs with
  | [] => .ok []
  | c :: cs =>
    if c ≠ '%' then (fillFrom template args cs).map (c :: ·)
    else
      match h : takePrecision cs with
      | (_, []) => .error (.trailing template)
      | (precision, verb :: rest) =>
        have : rest.length < cs.length := by
          have := length_takePrecision cs
          rw [h] at this
          exact this
        if verb = '%' then (fillFrom template args rest).map ('%' :: ·)
        else
          match args with
          | [] => .error (.missingArgument template)
          | arg :: args => do
            let text ← fill verb precision arg
            let tail ← fillFrom template args rest
            return text.toList ++ tail
termination_by cs.length

def format (template : String) (args : List Value) : Except Error String :=
  (fillFrom template args template.toList).map String.ofList

end TwinShell.Template
