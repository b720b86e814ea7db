import TwinShell.Decimal.Reader
import TwinShell.Language.Cursor
import TwinShell.Language.Operator

/-!
# Tokens

A line has no fixed division into tokens: what comes next depends on where the parser stands. There are four ways to read a token: as part of an expression, of unquoted text, of a quoted text, or of a path. Reading never fails; where nothing fits, the token is `eof` and the cursor stays on the offending character.
-/

namespace TwinShell.Language

/-- What a token is, with the value it carries. -/
inductive TokenKind where
  | eof
  | reference (name : String)
  | int (n : Int64)
  | float (x : Float)
  | bool (b : Bool)
  | quote
  | leftBracket
  | rightBracket
  | comma
  | leftParen
  | rightParen
  | not
  | operator (op : BinaryOp)
  | text
  | leftEval
  | format
  deriving DecidableEq

structure Token where
  kind : TokenKind
  text : String
  start : Nat
  deriving DecidableEq

/-- The binding power of a token, zero when it is no operator. -/
def Token.level (t : Token) : Nat :=
  match t.kind with
  | .operator op => op.level
  | .not => 6
  | _ => 0

namespace Cursor

def emit (start c : Cursor) (kind : TokenKind) : Token × Cursor :=
  (⟨kind, start.textSince c, start.pos⟩, c)

/-- The token that stands for "nothing fits here". -/
def emitEof (start : Cursor) : Token × Cursor := (⟨.eof, "eof", start.pos⟩, start)

def emitSkip (start : Cursor) (n : Nat) (kind : TokenKind) : Token × Cursor :=
  start.emit (start.skip n) kind

/-- A digit of a number; underscores may separate digits. -/
def isNumberChar (c : Char) : Bool := Text.isDigit c || c == '_'

/-- Reads a reference from its dollar sign on: `$name`, `${name}` or the start `$((` of an expression. -/
def reference? (start : Cursor) : Option (Token × Cursor) :=
  let c := start.skip 1
  if c.peek? = some '\x7b' then
    let first := (c.skip 1).skipSpaces
    let last := first.skipWhile Text.isNameChar
    let close := last.skipSpaces
    if last.pos ≠ first.pos ∧ close.peek? = some '\x7d' then
      some (start.emit (close.skip 1) (.reference (first.textSince last)))
    else none
  else if c.startsWith "((" then some (start.emitSkip 3 .leftEval)
  else
    let last := c.skipWhile Text.isNameChar
    if last.pos ≠ c.pos then some (start.emit last (.reference (c.textSince last))) else none

/-- Reads text from `c` on up to a dollar sign or one of the stops; the token starts at `start`. -/
def textFrom (stops : String) (start c : Cursor) : Token × Cursor :=
  let last := c.skipWhile fun ch => ch != '$' && !stops.toList.contains ch
  if last.pos = start.pos then start.emitEof else start.emit last .text

/-- Reads a token of text: a reference, or characters up to a dollar sign or one of the stops. A dollar sign that starts no reference is text. -/
def textToken (stops : String) (start : Cursor) : Token × Cursor :=
  if start.peek? = some '$' then
    match start.reference? with
    | some token => token
    | none => start.textFrom stops (start.skip 1)
  else start.textFrom stops start

/-- What ends unquoted text. -/
def unquotedStops : String := "@;,\x7d)"

def quotedStops : String := "\""

def pathStops : String := " @;,\x7d):"

/-- The value of the characters of a number; underscores do not count. An integer beyond 64 bits is read as a float. -/
def numberKind? (chars : List Char) (isFloat : Bool) : Option TokenKind :=
  let digits := chars.filter (· ≠ '_')
  let float? := (Decimal.readFloatChars? digits).map .float
  if isFloat then float?
  else
    match Decimal.readWordChars? digits with
    | some n => some (.int n)
    | none => float?

/-- Ends a number at `c`. A letter right behind it makes the whole run plain text. -/
def endNumber (start c : Cursor) (isFloat : Bool) : Token × Cursor :=
  if c.nextIs Text.isLetter then start.textFrom unquotedStops c
  else
    match numberKind? (start.charsSince c) isFloat with
    | some kind => start.emit c kind
    | none => start.emitEof

def exponentEnd? (c : Cursor) : Option Cursor :=
  if c.peek? = some 'e' ∨ c.peek? = some 'E' then
    let offset := if c.peekAt? 1 = some '+' ∨ c.peekAt? 1 = some '-' then 2 else 1
    if (c.peekAt? offset).any Text.isDigit then some ((c.skip offset).skipWhile isNumberChar)
    else none
  else none

/-- Reads an integer or a float. Two points in a row belong to a range, so a number stops before them. -/
def number (start : Cursor) : Token × Cursor :=
  let whole := start.skipWhile isNumberChar
  if whole.peek? = some '.' then
    if whole.peekAt? 1 = some '.' then
      if whole.pos = start.pos then start.emitEof else start.endNumber whole false
    else
      let fraction := (whole.skip 1).skipWhile isNumberChar
      match fraction.exponentEnd? with
      | some c => start.endNumber c true
      | none => start.endNumber fraction true
  else
    match whole.exponentEnd? with
    | some c => start.endNumber c true
    | none => start.endNumber whole false

/-- Reads one of the words `true`, `false` and `format`. -/
def word (start : Cursor) : Token × Cursor :=
  if start.startsWith "true" then start.emitSkip 4 (.bool true)
  else if start.startsWith "false" then start.emitSkip 5 (.bool false)
  else if start.startsWith "format" then start.emitSkip 6 .format
  else start.emitEof

/-- Reads an operator of two characters, or else the token `single` of the first one. -/
def doubled (start : Cursor) (second : Char) (kind : TokenKind) (single : Option TokenKind) :
    Token × Cursor :=
  if start.peekAt? 1 = some second then start.emitSkip 2 kind
  else
    match single with
    | some kind => start.emitSkip 1 kind
    | none => start.emitEof

/-- Reads a token of an expression at a character that is no blank. -/
def expressionTokenAt (start : Cursor) (c : Char) : Token × Cursor :=
  match c with
  | '$' => start.reference?.getD start.emitEof
  | '"' => start.emitSkip 1 .quote
  | '[' => start.emitSkip 1 .leftBracket
  | ']' => start.emitSkip 1 .rightBracket
  | ',' => start.emitSkip 1 .comma
  | '(' => start.emitSkip 1 .leftParen
  | ')' => start.emitSkip 1 .rightParen
  | '+' => start.emitSkip 1 (.operator (.arith .add))
  | '-' => start.emitSkip 1 (.operator (.arith .sub))
  | '*' => start.emitSkip 1 (.operator (.arith .mul))
  | '/' => start.emitSkip 1 (.operator (.arith .div))
  | '\\' => start.emitSkip 1 (.operator (.arith .intDiv))
  | '%' => start.emitSkip 1 (.operator (.arith .mod))
  | '|' => start.doubled '|' (.operator .or) none
  | '&' => start.doubled '&' (.operator .and) none
  | '=' => start.doubled '=' (.operator .equal) none
  | '!' => start.doubled '=' (.operator .notEqual) (some .not)
  | '<' => start.doubled '=' (.operator (.compare .lessEqual)) (some (.operator (.compare .less)))
  | '>' =>
    start.doubled '=' (.operator (.compare .greaterEqual)) (some (.operator (.compare .greater)))
  | c => if Text.isDigit c || c == '.' then start.number else start.word

/-- Reads a token of an expression, after spaces and tabs. -/
def expressionToken (c : Cursor) : Token × Cursor :=
  let start := c.skipSpaces
  match start.peek? with
  | none => start.emitEof
  | some ch => start.expressionTokenAt ch

end Cursor

/-- The ways to read a token of text. -/
inductive TextMode where
  | unquoted
  | quoted
  | path
  deriving DecidableEq, Repr

def TextMode.stops : TextMode → String
  | .unquoted => Cursor.unquotedStops
  | .quoted => Cursor.quotedStops
  | .path => Cursor.pathStops

def TextMode.token (mode : TextMode) (c : Cursor) : Token × Cursor := c.textToken mode.stops

end TwinShell.Language
