import TwinShell.Decimal.Reader
import TwinShell.Decimal.Written
import TwinShell.Json.Basic

/-!
# Reading JSON

A reader that goes through the text once and reports the first fault with its line and column. Columns count the bytes of the UTF-8 encoding. A fault is placed either right after what was read, or at the offending character that comes next. Containers may be nested 127 deep. Of several fields with one key the last stays.
-/

namespace TwinShell.Json

/-- Why a text is no document. -/
inductive Fault where
  | endInList
  | endInObject
  | endInString
  | endInValue
  | colonExpected
  | listCommaOrEndExpected
  | objectCommaOrEndExpected
  | identExpected
  | valueExpected
  | invalidEscape
  | invalidNumber
  | numberOutOfRange
  | controlCharacter
  | keyNotString
  | loneSurrogate
  | trailingComma
  | trailingCharacters
  | brokenHexEscape
  | tooDeep
  deriving DecidableEq, Repr

def Fault.message : Fault → String
  | .endInList => "EOF while parsing a list"
  | .endInObject => "EOF while parsing an object"
  | .endInString => "EOF while parsing a string"
  | .endInValue => "EOF while parsing a value"
  | .colonExpected => "expected `:`"
  | .listCommaOrEndExpected => "expected `,` or `]`"
  | .objectCommaOrEndExpected => "expected `,` or `\x7d`"
  | .identExpected => "expected ident"
  | .valueExpected => "expected value"
  | .invalidEscape => "invalid escape"
  | .invalidNumber => "invalid number"
  | .numberOutOfRange => "number out of range"
  | .controlCharacter => "control character (\\u0000-\\u001F) found while parsing a string"
  | .keyNotString => "key must be a string"
  | .loneSurrogate => "lone leading surrogate in hex escape"
  | .trailingComma => "trailing comma"
  | .trailingCharacters => "trailing characters"
  | .brokenHexEscape => "unexpected end of hex escape"
  | .tooDeep => "recursion limit exceeded"

structure ReadError where
  fault : Fault
  line : Nat
  column : Nat
  deriving DecidableEq, Repr

def ReadError.message (e : ReadError) : String :=
  e.fault.message ++ " at line " ++ Decimal.natText e.line ++ " column " ++ Decimal.natText e.column

/-- Where the reader stands: what is left, and the line and column of what was read. -/
structure Place where
  rest : List Char
  line : Nat
  column : Nat
  deriving DecidableEq, Repr

namespace Place

def start (text : String) : Place := ⟨text.toList, 1, 0⟩

def next (p : Place) : Place :=
  match p.rest with
  | [] => p
  | '\n' :: cs => ⟨cs, p.line + 1, 0⟩
  | c :: cs => ⟨cs, p.line, p.column + c.utf8Size⟩

/-- Steps over JSON's white space. -/
def skipBlanks (p : Place) : Place :=
  let rec go (line column : Nat) : List Char → Place
    | [] => ⟨[], line, column⟩
    | c :: cs =>
      if c = '\n' then go (line + 1) 0 cs
      else if c = ' ' ∨ c = '\t' ∨ c = '\r' then go line (column + 1) cs
      else ⟨c :: cs, line, column⟩
  go p.line p.column p.rest

/-- A fault right after what was read. -/
def fail {α : Type} (p : Place) (fault : Fault) : Except ReadError α :=
  .error ⟨fault, p.line, p.column⟩

/-- Steps over `n` bytes, or to the end of the text. A place inside a character leaves that character to be read. -/
def skipBytes (n : Nat) (p : Place) : Place :=
  let rec go (line column n : Nat) : List Char → Place
    | [] => ⟨[], line, column⟩
    | c :: cs =>
      if n = 0 then ⟨c :: cs, line, column⟩
      else if c = '\n' then go (line + 1) 0 (n - 1) cs
      else if c.utf8Size ≤ n then go line (column + c.utf8Size) (n - c.utf8Size) cs
      else ⟨c :: cs, line, column + n⟩
  go p.line p.column n p.rest

/-- A fault at the next byte, if there is one. -/
def failAtNext {α : Type} (p : Place) (fault : Fault) : Except ReadError α :=
  (p.skipBytes 1).fail fault

end Place

def readIdent (letters : List Char) (p : Place) : Except ReadError Place :=
  match letters with
  | [] => .ok p
  | letter :: more =>
    match p.rest with
    | [] => p.fail .endInValue
    | c :: _ => if c = letter then readIdent more p.next else p.failAtNext .identExpected

def hexValue? (c : Char) : Option Nat :=
  if '0' ≤ c && c ≤ '9' then some (c.toNat - '0'.toNat)
  else if 'a' ≤ c && c ≤ 'f' then some (c.toNat - 'a'.toNat + 10)
  else if 'A' ≤ c && c ≤ 'F' then some (c.toNat - 'A'.toNat + 10)
  else none

/-- Reads the four digits of a hexadecimal escape. Four bytes that are no digits are a fault behind them, and fewer bytes one at the end of the text. -/
def readHex (p : Place) : Except ReadError (Nat × Place) :=
  let after := p.skipBytes 4
  match (p.rest.take 4).mapM hexValue? with
  | some [a, b, c, d] => .ok (((a * 16 + b) * 16 + c) * 16 + d, after)
  | _ =>
    after.fail (if (String.ofList p.rest).utf8ByteSize < 4 then .endInString else .invalidEscape)

/-- Reads what follows `\u`: one escape, or the two halves of a surrogate pair. -/
def readUnicode (p : Place) : Except ReadError (Char × Place) := do
  let (high, p) ← readHex p
  if 0xDC00 ≤ high ∧ high ≤ 0xDFFF then p.fail .loneSurrogate
  else if high < 0xD800 ∨ 0xDBFF < high then return (Char.ofNat high, p)
  else
    match p.rest with
    | [] => p.fail .endInString
    | '\\' :: [] => p.next.fail .endInString
    | '\\' :: 'u' :: _ =>
      let (low, p) ← readHex p.next.next
      if low < 0xDC00 ∨ 0xDFFF < low then p.fail .loneSurrogate
      else return (Char.ofNat ((high - 0xD800) * 1024 + (low - 0xDC00) + 0x10000), p)
    | '\\' :: _ => p.next.failAtNext .brokenHexEscape
    | _ => p.failAtNext .brokenHexEscape

/-- Reads what follows a backslash. -/
def readEscape (p : Place) : Except ReadError (Char × Place) :=
  match p.rest with
  | [] => p.fail .endInString
  | c :: _ =>
    match c with
    | '"' => .ok ('"', p.next)
    | '\\' => .ok ('\\', p.next)
    | '/' => .ok ('/', p.next)
    | 'b' => .ok ('\x08', p.next)
    | 'f' => .ok ('\x0c', p.next)
    | 'n' => .ok ('\n', p.next)
    | 'r' => .ok ('\r', p.next)
    | 't' => .ok ('\t', p.next)
    | 'u' => readUnicode p.next
    | _ => p.failAtNext .invalidEscape

/-- Reads a string after its opening quote; `read` holds the characters so far, last first. Every step reads a character, so the length of the text is enough fuel. -/
def readStringFrom (read : List Char) : Nat → Place → Except ReadError (String × Place)
  | 0, p => p.fail .endInString
  | fuel + 1, p =>
    match p.rest with
    | [] => p.fail .endInString
    | c :: _ =>
      if c = '"' then .ok (String.ofList read.reverse, p.next)
      else if c = '\\' then do
        let (c, p) ← readEscape p.next
        readStringFrom (c :: read) fuel p
      else if c.toNat < 32 then p.next.fail .controlCharacter
      else readStringFrom (c :: read) fuel p.next

def readString (p : Place) : Except ReadError (String × Place) :=
  readStringFrom [] (p.rest.length + 1) p

/-- The largest significand that is kept exactly. -/
def greatestSignificand : Nat := 0xFFFFFFFFFFFFFFFF

/-- The float `significand * 10 ^ exponent`: the significand is rounded to a float, then multiplied or divided by the float nearest to the power of ten. An exponent below `-308` is divided out in steps. -/
def scaleFloat (significand : Nat) (exponent : Int) : Option Float :=
  let power (n : Nat) : Float := Float.ofScientific 1 false n
  let rec down : Nat → Float → Nat → Float
    | 0, f, _ => f
    | steps + 1, f, e =>
      if e ≤ 308 then f / power e else if f == 0.0 then f else down steps (f / power 308) (e - 308)
  let f := Float.ofNat significand
  if 0 ≤ exponent then
    if exponent ≤ 308 then
      let g := f * power exponent.toNat
      if g.isInf then none else some g
    else if significand = 0 then some f else none
  else some (down 8 f (-exponent).toNat)

def finishFloat (negative : Bool) (significand : Nat) (exponent : Int) (p : Place) :
    Except ReadError (Json × Place) :=
  match scaleFloat significand exponent with
  | some x => .ok (.float (if negative then -x else x), p)
  | none => p.fail .numberOutOfRange

def Place.skip (p : Place) (n : Nat) : Place := ⟨p.rest.drop n, p.line, p.column + n⟩

/-- Appends the digits to the significand as long as it stays exact; gives the significand and how many digits it took. -/
def appendDigits : Nat → List Char → Nat × Nat
  | significand, [] => (significand, 0)
  | significand, c :: cs =>
    let more := significand * 10 + Decimal.digitValue c
    if greatestSignificand < more then (significand, 0)
    else
      let (s, n) := appendDigits more cs
      (s, n + 1)

/-- The greatest exponent that is kept; one that is larger stands for zero or for too large a number. -/
def greatestExponent : Nat := 0x7FFFFFFF

/-- Reads the exponent part that starts at `e`. -/
def readExponentPart (negative : Bool) (significand : Nat) (exponent : Int) (p : Place) :
    Except ReadError (Json × Place) :=
  let p := p.next
  let (down, p) :=
    match p.rest with
    | '+' :: _ => (false, p.next)
    | '-' :: _ => (true, p.next)
    | _ => (false, p)
  match p.rest with
  | [] => p.fail .endInValue
  | c :: _ =>
    if !Text.isDigit c then p.failAtNext .invalidNumber
    else
      let digits := p.rest.takeWhile Text.isDigit
      let n := Decimal.natOfDigits digits
      let after := p.skip digits.length
      if greatestExponent < n then
        if significand ≠ 0 ∧ !down then
          let kept := (List.range digits.length).findIdx fun i =>
            greatestExponent < Decimal.natOfDigits (digits.take (i + 1))
          (p.skip (kept + 1)).fail .numberOutOfRange
        else .ok (.float (if negative then -0.0 else 0.0), after)
      else finishFloat negative significand (exponent + (if down then -Int.ofNat n else Int.ofNat n)) after

def readFractionPart (negative : Bool) (significand : Nat) (exponent : Int) (p : Place) :
    Except ReadError (Json × Place) :=
  let p := p.next
  let digits := p.rest.takeWhile Text.isDigit
  if digits.isEmpty then
    match p.rest with
    | [] => p.fail .endInValue
    | _ => p.failAtNext .invalidNumber
  else
    let (significand, kept) := appendDigits significand digits
    let exponent := exponent - Int.ofNat kept
    let after := p.skip digits.length
    match after.rest with
    | 'e' :: _ | 'E' :: _ => readExponentPart negative significand exponent after
    | _ => finishFloat negative significand exponent after

/-- Reads a number after its sign. -/
def readNumber (negative : Bool) (p : Place) : Except ReadError (Json × Place) :=
  match p.rest with
  | [] => p.fail .endInValue
  | c :: _ =>
    if !Text.isDigit c then p.failAtNext .invalidNumber
    else if c = '0' && (p.next.rest.head?.any Text.isDigit) then p.next.failAtNext .invalidNumber
    else
      let digits := p.rest.takeWhile Text.isDigit
      let (significand, kept) := appendDigits 0 digits
      let dropped := digits.length - kept
      let after := p.skip digits.length
      match after.rest with
      | '.' :: _ => readFractionPart negative significand (Int.ofNat dropped) after
      | 'e' :: _ | 'E' :: _ => readExponentPart negative significand (Int.ofNat dropped) after
      | _ =>
        if dropped ≠ 0 then finishFloat negative significand (Int.ofNat dropped) after
        else if !negative then .ok (.int (Int.ofNat significand), after)
        else if significand = 0 ∨ 0x8000000000000000 < significand then
          .ok (.float (-Float.ofNat significand), after)
        else .ok (.int (-Int.ofNat significand), after)

/-- Reads items up to the closing bracket, with `readItem` for each. Every item has a character, so the length of the text is enough fuel. -/
def readItems (readItem : Place → Except ReadError (Json × Place)) (items : List Json) :
    Nat → Place → Except ReadError (List Json × Place)
  | 0, p => p.fail .endInList
  | fuel + 1, p => do
    let p := p.skipBlanks
    match p.rest with
    | [] => p.failAtNext .endInList
    | c :: _ =>
      if c = ']' then .ok (items.reverse, p.next)
      else if items.isEmpty then
        let (item, p) ← readItem p
        readItems readItem [item] fuel p
      else if c = ',' then
        let p := p.next.skipBlanks
        match p.rest with
        | [] => p.failAtNext .endInValue
        | ']' :: _ => p.failAtNext .trailingComma
        | _ =>
          let (item, p) ← readItem p
          readItems readItem (item :: items) fuel p
      else p.failAtNext .listCommaOrEndExpected

def readAfterKey (readItem : Place → Except ReadError (Json × Place)) (p : Place) :
    Except ReadError (Json × Place) :=
  let p := p.skipBlanks
  match p.rest with
  | [] => p.failAtNext .endInObject
  | ':' :: _ => readItem p.next
  | _ => p.failAtNext .colonExpected

/-- Reads fields up to the closing brace. Every field has a character, so the length of the text is enough fuel. -/
def readFields (readItem : Place → Except ReadError (Json × Place)) (first : Bool) (fields : Object) :
    Nat → Place → Except ReadError (Object × Place)
  | 0, p => p.fail .endInObject
  | fuel + 1, p => do
    let p := p.skipBlanks
    match p.rest with
    | [] => p.failAtNext .endInObject
    | c :: _ =>
      if c = '\x7d' then .ok (fields, p.next)
      else if first then
        if c = '"' then
          let (key, p) ← readString p.next
          let (value, p) ← readAfterKey readItem p
          readFields readItem false (fields.insert key value) fuel p
        else p.failAtNext .keyNotString
      else if c = ',' then
        let p := p.next.skipBlanks
        match p.rest with
        | [] => p.failAtNext .endInValue
        | '"' :: _ =>
          let (key, p) ← readString p.next
          let (value, p) ← readAfterKey readItem p
          readFields readItem false (fields.insert key value) fuel p
        | '\x7d' :: _ => p.failAtNext .trailingComma
        | _ => p.failAtNext .keyNotString
      else p.failAtNext .objectCommaOrEndExpected

/-- Reads a value, with containers nested less than `depth` deep. -/
def readValue : Nat → Place → Except ReadError (Json × Place)
  | 0, p => p.failAtNext .tooDeep
  | depth + 1, p => do
    let p := p.skipBlanks
    match p.rest with
    | [] => p.failAtNext .endInValue
    | c :: _ =>
      match c with
      | 'n' => return (.null, ← readIdent "ull".toList p.next)
      | 't' => return (.bool true, ← readIdent "rue".toList p.next)
      | 'f' => return (.bool false, ← readIdent "alse".toList p.next)
      | '-' => readNumber true p.next
      | '"' =>
        let (text, p) ← readString p.next
        return (.str text, p)
      | '[' =>
        if depth = 0 then p.failAtNext .tooDeep
        else
          let (items, p) ← readItems (readValue depth) [] (p.rest.length + 1) p.next
          return (.arr items, p)
      | '\x7b' =>
        if depth = 0 then p.failAtNext .tooDeep
        else
          let (fields, p) ← readFields (readValue depth) true .empty (p.rest.length + 1) p.next
          return (ofObject fields, p)
      | c => if Text.isDigit c then readNumber false p else p.failAtNext .valueExpected

/-- Reads a document that takes up the whole text. -/
def read (text : String) : Except ReadError Json := do
  let (json, p) ← readValue 128 (Place.start text)
  let p := p.skipBlanks
  match p.rest with
  | [] => return json
  | _ => p.failAtNext .trailingCharacters

def read? (text : String) : Option Json := (read text).toOption

end TwinShell.Json
