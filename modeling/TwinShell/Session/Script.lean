import TwinShell.Language.Parser.Command
import TwinShell.Session.Basic

/-!
# Scripts

A script is a text of statements, one to a line; a line that ends with a backslash goes on in the next one, and comments are dropped. A script is read completely before anything runs: a line that cannot be read refuses all of it. The statements then run in order. One that fails is recorded and the next one runs; an object that exists already is no failure. All failures are reported at the end, each with the lines that led to it.
-/

namespace TwinShell

/-- A statement of a script, with the number of its first line. -/
structure Statement (α : Type) where
  line : Nat
  text : String
  content : α

namespace Script

/-- A line without its comment and the blanks at its end. -/
def codeOf (line : String) : String := Text.trimEnd (Language.stripComment line)

/-- The part of a line before the backslash that continues it. -/
def continued? (code : String) : Option String :=
  if code.toList.getLast? = some '\\' then some (String.ofList code.toList.dropLast) else none

def joinParts (parts : List String) : String := " ".intercalate (parts.filter (· ≠ ""))

/-- Groups lines into statements. `number` is the number of the next line and `start` that of the statement being read, whose parts so far are `parts`, last first. A statement that is still open at the end of the text is dropped. -/
def group (number start : Nat) (parts : List String) : List String → List (Nat × String)
  | [] => []
  | line :: rest =>
    let code := codeOf line
    let start := if parts.isEmpty then number else start
    match continued? code with
    | some part => group (number + 1) start (Text.trim part :: parts) rest
    | none =>
      let statement := joinParts (Text.trim code :: parts).reverse
      if statement = "" then group (number + 1) start [] rest
      else (start, statement) :: group (number + 1) start [] rest

/-- The statements of a text, as texts. -/
def statements (text : String) : List (Nat × String) := group 1 1 [] (Text.lines text)

/-- A text read as a script: what it does, and the lines that cannot be read. -/
structure Reading where
  statements : List (Statement Node) := []
  errors : List (Statement Language.SyntaxError) := []

/-- Reads one statement; one that does nothing is left out. -/
def Reading.add (statement : Nat × String) (r : Reading) : Reading :=
  match Language.parse statement.2 with
  | .ok .nop => r
  | .ok node => { r with statements := ⟨statement.1, statement.2, node⟩ :: r.statements }
  | .error e => { r with errors := ⟨statement.1, statement.2, e⟩ :: r.errors }

def read (text : String) : Reading := (statements text).foldr Reading.add {}

/-- How deep scripts may be nested. -/
def maxDepth : Nat := 16

end Script

namespace Command

variable {β ν : Type} (ev : Node → Command β ν Value)

/-- The failures that an error of a statement amounts to. -/
def failuresOf (place : ScriptPlace) : EvalError → List Failure
  | .hierarchy (.alreadyExists _) => []
  | .script (.failed nested) => nested.map fun f => { f with places := place :: f.places }
  | e => [⟨[place], e.message⟩]

/-- Runs a statement and gives its failures. -/
def runStatement (file : String) (statement : Statement Node) : Command β ν (List Failure) :=
  fun s =>
    match ev statement.content s with
    | .ok _ s => .ok [] s
    | .error (.failed e) s => .ok (failuresOf ⟨file, statement.line, statement.text⟩ e) s
    | .error stop s => .error stop s

/-- Runs statements until one asks to exit, and gives their failures. -/
def runStatements (file : String) : List (Statement Node) → Command β ν (List Failure)
  | [] => return []
  | statement :: rest => do
    let failures ← runStatement ev file statement
    if (← MonadState.get).exitRequested then return failures
    else return failures ++ (← runStatements file rest)

/-- Runs a script given as text; `file` names it in reports. -/
def runText (file text : String) : Command β ν Unit := do
  let reading := Script.read text
  if !reading.errors.isEmpty then
    fail (.script (.unreadable file (reading.errors.map fun e => (e.line, e.text))))
  else
    let failures ← runStatements ev file reading.statements
    if !failures.isEmpty then fail (.script (.failed failures))

def runFile (path : String) : Command β ν Unit := do
  let text ← readFile path
  runText ev (Files.fileName path) text

/-- Runs a step with scripts nested one deeper. -/
def nested {α : Type} (step : Command β ν α) : Command β ν α := fun s =>
  match step { s with scriptDepth := s.scriptDepth + 1 } with
  | .ok a s => .ok a { s with scriptDepth := s.scriptDepth - 1 }
  | .error e s => .error e { s with scriptDepth := s.scriptDepth - 1 }

/-- Runs the script that a node names. -/
def runScript (file : Node) : Command β ν Value := do
  let file ← evalText ev file
  if Script.maxDepth ≤ (← MonadState.get).scriptDepth then failRuntime (.nestedScripts file)
  else
    nested (runFile ev file)
    return .null

def checkLines (index : Nat) (e : Statement Language.SyntaxError) : List String := [
  "# Error " ++ Decimal.natText index,
  "  LINE#: " ++ Decimal.natText e.line ++ "\tCOMMAND:" ++ e.text,
  "  Error : " ++ e.content.problem.message]

/-- Reports the lines of a script that cannot be read, and runs nothing. -/
def checkScript (file : Node) : Command β ν Value := do
  let file ← evalText ev file
  let errors := (Script.read (← readFile file)).errors
  emit "####################"
  emit ("Errors found: " ++ Decimal.natText errors.length)
  emitAll (errors.zipIdx.flatMap fun (e, i) => checkLines i e)
  return .null

end Command

end TwinShell
