import TwinShell.Language.Problem
import TwinShell.Language.Token

/-!
# Parsers

A parser goes from a cursor to a result and a later cursor, or stops with a problem. Nesting is bounded by an explicit depth; a parser that runs out of it is `exhausted`, which is neither a result nor a problem and is never caught. `traced` names the rule being read, for reports.
-/

namespace TwinShell.Language

/-- What a parser answers. -/
inductive Reply (α : Type) where
  | ok (result : α) (cursor : Cursor)
  | error (e : SyntaxError)
  | exhausted

/-- What a parser knows of its surroundings: the whole line and the rules being read. -/
structure Context where
  input : String
  trail : List String

def Parser (α : Type) : Type := Context → Cursor → Reply α

namespace Parser

variable {α β : Type}

protected def pure (a : α) : Parser α := fun _ c => .ok a c

protected def bind (p : Parser α) (f : α → Parser β) : Parser β := fun ctx c =>
  match p ctx c with
  | .ok a c => f a ctx c
  | .error e => .error e
  | .exhausted => .exhausted

instance : Monad Parser where
  pure := Parser.pure
  bind := Parser.bind

/-- The parser that has no depth left. -/
def exhausted : Parser α := fun _ _ => .exhausted

def cursor : Parser Cursor := fun _ c => .ok c c

def goto (c : Cursor) : Parser Unit := fun _ _ => .ok () c

def move (f : Cursor → Cursor) : Parser Unit := fun _ c => .ok () (f c)

def reading (f : Cursor → α × Cursor) : Parser α := fun _ c => .ok (f c).1 (f c).2

def look (f : Cursor → α) : Parser α := fun _ c => .ok (f c) c

def failAt (position : Nat) (problem : Problem) : Parser α := fun ctx _ =>
  .error ⟨problem, position, ctx.trail, ctx.input⟩

def fail (problem : Problem) : Parser α := fun ctx c =>
  .error ⟨problem, c.pos, ctx.trail, ctx.input⟩

/-- Reads `p` as the rule `name`; a rule without a name does not show in reports. -/
def traced (name : String) (p : Parser α) : Parser α := fun ctx c =>
  if name = "" then p ctx c else p { ctx with trail := ctx.trail ++ [name] } c

/-- Reads `p` if it has no problem, and nothing otherwise. -/
def attempt (p : Parser α) : Parser (Option α) := fun ctx c =>
  match p ctx c with
  | .ok a c => .ok (some a) c
  | .error _ => .ok none c
  | .exhausted => .exhausted

def skipSpaces : Parser Unit := move Cursor.skipSpaces

def token : Parser Token := reading Cursor.expressionToken

/-- The characters that end a command. -/
def isCommandStop (c : Char) : Bool := c == ';' || c == '\x7d' || c == ')'

/-- Skips blanks and tells whether the command ends there. -/
def commandEnds : Parser Bool := do
  skipSpaces
  look fun c => c.atEnd || c.nextIs isCommandStop

/-- Skips blanks and tells whether a value ends there; values are also separated by `@`. -/
def valueEnds : Parser Bool := do
  if ← commandEnds then return true
  look (·.nextIs (· == '@'))

/-- Reads `word` if the line goes on with it, and tells whether it does. -/
def tryExact (word : String) : Parser Bool := fun _ c =>
  if c.startsWith word then .ok true (c.skip word.length) else .ok false c

def expect (word : String) : Parser Unit := do
  if ← tryExact word then return () else fail (.expected word)

/-- Reads the characters that satisfy `p`, and the blanks around them. -/
def wordOf (p : Char → Bool) : Parser String := do
  skipSpaces
  let first ← cursor
  move (·.skipWhile p)
  let last ← cursor
  skipSpaces
  return first.textSince last

/-- Reads letters, digits and underscores. -/
def simpleWord : Parser String := wordOf Text.isNameChar

/-- Reads letters, digits, underscores, `-` and `+`. -/
def complexWord : Parser String := wordOf fun c => Text.isNameChar c || c == '-' || c == '+'

/-- Goes through a line along the words of a table: how many characters some word agrees with, and the entry that is then read to its end. -/
def walkTable : List (List Char × α) → List Char → Nat × Option α
  | table, [] => (0, (table.find? (·.1.isEmpty)).map (·.2))
  | table, c :: cs =>
    let further := table.filterMap fun (word, a) =>
      match word with
      | d :: ds => if d = c then some (ds, a) else none
      | [] => none
    if further.isEmpty then (0, (table.find? (·.1.isEmpty)).map (·.2))
    else
      let (n, found) := walkTable further cs
      (n + 1, found)

/-- Reads the longest run of characters that starts some word of the table, if that run is a word of the table. A word that ends like a name must not run into another character of a name. -/
def keyword? (table : List (String × α)) : Parser (Option (String × α)) := fun _ c =>
  let (n, found) := walkTable (table.map fun (word, a) => (word.toList, a)) c.rest
  let after := c.skip n
  match found with
  | none => .ok none c
  | some a =>
    let chars := c.rest.take n
    if chars.getLast?.any Text.isNameChar && after.nextIs Text.isNameChar then .ok none c
    else .ok (some (String.ofList chars, a)) after

/-- Reads with `p` from the start of a line, at the outermost rule. -/
def runOn (p : Parser α) (line : String) : Except SyntaxError α :=
  match p ⟨line, []⟩ (Cursor.start line.toList) with
  | .ok a _ => .ok a
  | .error e => .error e
  | .exhausted => .error ⟨.tooDeep, 0, [], line⟩

end Parser

end TwinShell.Language
