import TwinShell.Language.Node
import TwinShell.Language.Parser.Basic

/-!
# Reading expressions and text

Expressions are read by precedence climbing. The rules refer to each other through `Grammar`, which holds the parsers for what is nested one level deeper; `Language/Parser/Command` ties the knot.
-/

namespace TwinShell.Language

/-- The parsers for nested parts. -/
structure Grammar where
  /-- An expression, with the blanks behind it. -/
  expression : Parser Node
  /-- Operators of at least the given level and their operands. -/
  binary : Nat → Parser Node
  /-- An operand with the signs before it. -/
  unary : Parser Node
  /-- One statement. -/
  statement : Parser Node
  /-- Statements separated by semicolons. -/
  statements : Parser Node

namespace Parser

/-- What has been read of a text with values in it. -/
structure TextPieces where
  /-- The characters that are no reference. -/
  plain : List Char := []
  /-- The template, in which percent signs are doubled. -/
  template : List Char := []
  /-- The values, last first. -/
  args : List Node := []

def TextPieces.addText (t : TextPieces) (chars : List Char) : TextPieces :=
  { t with
    plain := t.plain ++ chars
    template := t.template ++ chars.flatMap fun c => if c = '%' then ['%', '%'] else [c] }

def TextPieces.addValue (t : TextPieces) (node : Node) : TextPieces :=
  { t with
    template := t.template ++ ['%', 'v']
    args := node :: t.args }

/-- The node of a text: a literal if there is no value in it. -/
def TextPieces.toNode (t : TextPieces) (trim : Bool) : Node :=
  let finish (chars : List Char) : String :=
    String.ofList (if trim then Text.trimChars Text.isSpaceOrTab chars else chars)
  if t.args.isEmpty then Node.text (finish t.plain)
  else .interpolation (finish t.template) t.args.reverse

/-- Reads the tokens of a text. Every token but the last has a character, so the length of the line is enough fuel. -/
def textPieces (g : Grammar) (mode : TextMode) : Nat → TextPieces → Parser TextPieces
  | 0, _ => exhausted
  | fuel + 1, t => do
    let token ← reading mode.token
    match token.kind with
    | .text => textPieces g mode fuel (t.addText token.text.toList)
    | .reference name => textPieces g mode fuel (t.addValue (.symbol name))
    | .leftEval =>
      let node ← g.expression
      expect "))"
      textPieces g mode fuel (t.addValue node)
    | _ => return t

def textNode (g : Grammar) (mode : TextMode) (trim : Bool) : Parser Node := do
  let fuel ← look (·.rest.length + 1)
  return (← textPieces g mode fuel {}).toNode trim

/-- Reads a path and the blanks around it. -/
def path (g : Grammar) (name : String) : Parser Node :=
  traced (if name = "" then "path" else name ++ " path") do
    skipSpaces
    let text ← textNode g .path true
    skipSpaces
    return .path text

def pathItems (g : Grammar) : Nat → List Node → Parser (List Node)
  | 0, _ => exhausted
  | fuel + 1, paths => do
    skipSpaces
    let item ← path g ""
    skipSpaces
    if ← tryExact "\x7d" then return (item :: paths).reverse
    if ← tryExact "," then pathItems g fuel (item :: paths) else fail (.expected ", or \x7d")

def pathGroup (g : Grammar) : Parser (List Node) :=
  traced "path group" do
    skipSpaces
    expect "\x7b"
    let fuel ← look (·.rest.length + 1)
    let paths ← pathItems g fuel []
    skipSpaces
    return paths

/-- Reads a quoted text or a `format(…)` as an expression, anything else as unquoted text. -/
def string (g : Grammar) (name : String) : Parser Node :=
  traced name do
    skipSpaces
    if ← look fun c => c.startsWith "\"" || c.startsWith "format(" then g.expression
    else
      let node ← textNode g .unquoted true
      skipSpaces
      return node

/-- Whether the characters of an integer start with a zero that has to be kept, as in a color. -/
def isPadded : List Char → Bool
  | '0' :: c :: _ => Text.isDigit c
  | _ => false

/-- The node of a value that reads as the expression `node` and is written `chars`: an integer with leading zeros is meant as text. -/
def valueNode (node : Node) (chars : List Char) : Node :=
  match node with
  | .literal (.int n) =>
    let raw := Text.trimChars Text.isSpaceOrTab chars
    if isPadded raw then Node.text (String.ofList raw) else .literal (.int n)
  | node => node

/-- Reads an argument of a command: `eval` and an expression, an array, the result of a command between `$(` and `)`, or whatever is an expression up to the end of the value; anything else is text. -/
def value (g : Grammar) : Parser Node :=
  traced "value" do
    skipSpaces
    if ← tryExact "eval " then g.expression
    else if ← look (·.startsWith "[") then g.expression
    else if ← look fun c => c.startsWith "$(" && !c.startsWith "$((" then
      move (·.skip 2)
      let node ← g.statements
      expect ")"
      return node
    else
      let start ← cursor
      match ← attempt g.expression with
      | some node =>
        if ← valueEnds then
          let stop ← cursor
          return valueNode node (start.charsSince stop)
        else
          goto start
          string g ""
      | none => string g ""

/-- Reads expressions up to the text `close`, which is read too. -/
def expressionItems (g : Grammar) (close : String) : Nat → List Node → Parser (List Node)
  | 0, _ => exhausted
  | fuel + 1, items => do
    let item ← g.expression
    if ← tryExact close then return (item :: items).reverse
    if ← tryExact "," then expressionItems g close fuel (item :: items)
    else fail (.expected (", or " ++ close))

/-- Reads expressions separated by commas, up to the text `close`. -/
def expressionList (g : Grammar) (close : String) : Parser (List Node) :=
  traced "expression list" do
    skipSpaces
    if ← tryExact close then return []
    let fuel ← look (·.rest.length + 1)
    expressionItems g close fuel []

def arrayItems (g : Grammar) : Nat → List Node → Parser (List Node)
  | 0, _ => exhausted
  | fuel + 1, items => do
    let item ← traced "array element" g.expression
    let next ← token
    match next.kind with
    | .rightBracket => return (item :: items).reverse
    | .comma => arrayItems g fuel (item :: items)
    | _ => failAt next.start (.expected "] or comma")

def array (g : Grammar) : Parser Node := do
  let start ← cursor
  match (← token).kind with
  | .rightBracket => return .array []
  | _ =>
    goto start
    let fuel ← look (·.rest.length + 1)
    return .array (← arrayItems g fuel [])

/-- Reads what follows the name of a variable: an index between brackets, or nothing. -/
def afterReference (g : Grammar) (name : String) : Parser Node := do
  let start ← cursor
  match (← token).kind with
  | .leftBracket =>
    let index ← traced "index" g.expression
    match (← token).kind with
    | .rightBracket => return .element name index
    | _ => fail .unclosedBracket
  | _ =>
    goto start
    return .symbol name

/-- Reads a literal, a variable, an array, a quoted text, a `format(…)` or an expression in parentheses. -/
def primary (g : Grammar) : Parser Node := do
  let token ← token
  match token.kind with
  | .bool b => return .literal (.bool b)
  | .int n => return .literal (.int n)
  | .float x => return .literal (.float x)
  | .quote =>
    let node ← textNode g .quoted false
    expect "\""
    return node
  | .reference name => afterReference g name
  | .leftEval =>
    let node ← g.expression
    expect "))"
    return node
  | .leftParen =>
    let node ← g.expression
    let close ← Parser.token
    match close.kind with
    | .rightParen => return node
    | _ => failAt close.start (.unclosedParen close.text)
  | .leftBracket => array g
  | .format =>
    skipSpaces
    expect "("
    match ← expressionList g ")" with
    | template :: args => return .formatted template args
    | [] => fail .formatWithoutArguments
  | _ => failAt token.start (.unexpectedToken token.text)

/-- Reads an operand with the signs before it. -/
def unary (g : Grammar) : Parser Node := do
  let start ← cursor
  match (← token).kind with
  | .operator (.arith .add) => g.unary
  | .operator (.arith .sub) => return .negate (← g.unary)
  | .not => return .not (← g.unary)
  | _ =>
    goto start
    primary g

/-- Reads operators of at least the given level and their right operands, after the operand `left`. -/
def binaryTail (g : Grammar) (level : Nat) : Nat → Node → Parser Node
  | 0, _ => exhausted
  | fuel + 1, left => do
    let start ← cursor
    match (← token).kind with
    | .operator op =>
      if level ≤ op.level then
        let right ← g.binary (op.level + 1)
        binaryTail g level fuel (.binary op left right)
      else
        goto start
        return left
    | _ =>
      goto start
      return left

def binary (g : Grammar) (level : Nat) : Parser Node := do
  let left ← unary g
  let fuel ← look (·.rest.length + 1)
  binaryTail g level fuel left

/-- Reads an expression and the blanks behind it. -/
def expression (g : Grammar) : Parser Node := do
  let node ← binary g 1
  skipSpaces
  return node

end Parser

end TwinShell.Language
