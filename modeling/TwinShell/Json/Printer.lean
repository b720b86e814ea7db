import TwinShell.Decimal.Written
import TwinShell.Json.Basic

/-!
# Writing JSON

A document is written compactly, without blanks, for requests and messages, and with an indentation of two spaces for the user. Strings escape the quote, the backslash and control characters only.
-/

namespace TwinShell.Json

/-- Floats in JSON: scientific below `10 ^ -5` and from `10 ^ 16` on, and whole numbers end in `.0`. -/
def floatFormat : Decimal.FloatFormat := ⟨.toEven, fun e => -5 ≤ e && e < 16, ".0"⟩

/-- A digit of base sixteen in lower case. -/
def hexDigit (n : Nat) : Char :=
  if n < 10 then Char.ofNat (n + '0'.toNat) else Char.ofNat (n - 10 + 'a'.toNat)

/-- A character as it stands between the quotes of a string. -/
def escapeChar (c : Char) : List Char :=
  match c with
  | '"' => ['\\', '"']
  | '\\' => ['\\', '\\']
  | '\x08' => ['\\', 'b']
  | '\t' => ['\\', 't']
  | '\n' => ['\\', 'n']
  | '\x0c' => ['\\', 'f']
  | '\r' => ['\\', 'r']
  | c =>
    if c.toNat < 32 then ['\\', 'u', '0', '0', hexDigit (c.toNat / 16), hexDigit (c.toNat % 16)]
    else [c]

def quoted (text : String) : String :=
  String.ofList ('"' :: text.toList.flatMap escapeChar ++ ['"'])

/-- The text of a document without items or fields. -/
def scalar : Json → String
  | .null => "null"
  | .bool b => if b then "true" else "false"
  | .int n => Decimal.intText n
  | .float x => floatFormat.write x
  | .str s => quoted s
  | .arr _ => "[]"
  | .obj _ => "\x7b\x7d"

mutual

/-- The compact text of a document. -/
def compact : Json → String
  | .arr items => "[" ++ ",".intercalate (compactItems items) ++ "]"
  | .obj fields => "\x7b" ++ ",".intercalate (compactFields fields) ++ "\x7d"
  | .null => scalar .null
  | .bool b => scalar (.bool b)
  | .int n => scalar (.int n)
  | .float x => scalar (.float x)
  | .str s => scalar (.str s)

def compactItems : List Json → List String
  | [] => []
  | item :: rest => compact item :: compactItems rest

def compactFields : List (String × Json) → List String
  | [] => []
  | field :: rest => compactField field :: compactFields rest

def compactField : String × Json → String
  | (key, value) => quoted key ++ ":" ++ compact value

end

def lineBreak (level : Nat) : String := String.ofList ('\n' :: List.replicate (2 * level) ' ')

/-- Texts on lines of their own one level below `level`, between two brackets. -/
def block (start stop : String) (level : Nat) (texts : List String) : String :=
  start ++ ",".intercalate (texts.map (lineBreak (level + 1) ++ ·)) ++ lineBreak level ++ stop

mutual

/-- The indented text of a document that stands at `level`. -/
def indented (level : Nat) : Json → String
  | .arr items =>
    if items.isEmpty then "[]" else block "[" "]" level (indentedItems (level + 1) items)
  | .obj fields =>
    if fields.isEmpty then "\x7b\x7d"
    else block "\x7b" "\x7d" level (indentedFields (level + 1) fields)
  | .null => scalar .null
  | .bool b => scalar (.bool b)
  | .int n => scalar (.int n)
  | .float x => scalar (.float x)
  | .str s => scalar (.str s)

def indentedItems (level : Nat) : List Json → List String
  | [] => []
  | item :: rest => indented level item :: indentedItems level rest

def indentedFields (level : Nat) : List (String × Json) → List String
  | [] => []
  | field :: rest => indentedField level field :: indentedFields level rest

def indentedField (level : Nat) : String × Json → String
  | (key, value) => quoted key ++ ": " ++ indented level value

end

/-- The text of a document for the user. -/
def pretty (json : Json) : String := indented 0 json

end TwinShell.Json
