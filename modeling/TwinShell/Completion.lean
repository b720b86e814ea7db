import TwinShell.Hierarchy.Basic
import TwinShell.Language.Keyword

/-!
# Completion

What a half-typed command line may go on with. The word before the cursor is completed: with variables after a dollar sign, with keywords and aliases at the start of a statement, and with names of the hierarchy where a path is expected. Completion starts at the word, and every candidate starts with the word as it was typed.
-/

namespace TwinShell.Completion

/-- What completion knows of a session. -/
structure Scope where
  currentPath : String
  variableNames : List String
  aliases : List String

/-- What a word is completed with. -/
inductive Target where
  /-- The variables whose names start with the stem. -/
  | references (stem : String)
  /-- The keywords and aliases that start with the stem. -/
  | commands (stem : String)
  /-- The children of `directory` that start with the stem; `lead` is the part of the word before the stem. -/
  | children (lead directory stem : String)
  | nothing
  deriving DecidableEq, Repr

/-- Where a completion starts, in bytes, and what may stand from there on. -/
structure Result where
  start : Nat
  candidates : List String
  deriving DecidableEq, Repr

/-- Whether a new word starts after a character. -/
def isBreak (c : Char) : Bool :=
  [' ', '\t', ';', '{', '}', '(', ',', '@', '=', '>', ':'].contains c

/-- Whether a new statement starts after a character. -/
def startsStatement (c : Char) : Bool := c == ';' || c == '{'

def pathCommands : List String := [
  "cd", "ls", "tree", "get", "getu", "getslot", "draw", "undraw", "drawable", "unlink", "link",
  "cp", "lssite", "lsbldg", "lsroom", "lsrack", "lsdev", "lsac", "lspanel", "lscabinet",
  "lscorridor"]

/-- The characters before a byte offset. -/
def takeBytes : Nat → List Char → List Char
  | _, [] => []
  | n, c :: cs => if c.utf8Size ≤ n then c :: takeBytes (n - c.utf8Size) cs else []

def byteCount (cs : List Char) : Nat := (String.ofList cs).utf8ByteSize

/-- Whether a byte offset lies between two characters of a line, or at one of its ends. A cursor is always at such an offset. -/
def isBoundary (line : String) (offset : Nat) : Bool :=
  byteCount (takeBytes offset line.toList) = offset

def cutAfterLast (p : Char → Bool) (cs : List Char) : List Char × List Char :=
  ((cs.reverse.dropWhile (!p ·)).reverse, (cs.reverse.takeWhile (!p ·)).reverse)

def startsWithAny (p : Char → Bool) (cs : List Char) : Bool := cs.head?.any p

/-- Whether a word can only be a path. -/
def looksLikePath (word : List Char) : Bool := startsWithAny (fun c => c == '/' || c == '.') word

/-- Whether a statement that starts like this goes on with a path. -/
def takesPath (statement : List Char) : Bool :=
  let command := ((Text.words (String.ofList statement)).head?).getD ""
  pathCommands.contains (String.ofList (Text.dropEndWhile (· == ':') command.toList)) ||
    startsWithAny (['+', '-', '=', '>'].contains ·) statement

/-- What the word after `head` is completed with. -/
def target (scope : Scope) (head word : List Char) : Target :=
  match word with
  | '$' :: name => .references (String.ofList name)
  | _ =>
    let statement := (cutAfterLast startsStatement head).2.dropWhile Text.isBlank
    if statement.isEmpty && !looksLikePath word then .commands (String.ofList word)
    else if takesPath statement || looksLikePath word then
      let (lead, stem) := cutAfterLast (· == '/') word
      let directory := Path.resolve (String.ofList lead) scope.currentPath scope.currentPath
      .children (String.ofList lead) directory (String.ofList stem)
    else .nothing

/-- The texts that start with `stem`, in order and each once. -/
def startingWith (stem : String) (texts : List String) : List String :=
  (Dict.ofList ((texts.filter (Text.startsWith · stem)).map fun text => (text, ()))).keys

/-- Whether a keyword is a word; the others are signs. -/
def isWord (keyword : String) : Bool :=
  startsWithAny (fun c => c.isAlpha || c == '.') keyword.toList

def commandWords : List String := (Language.keywords.map (·.1)).filter isWord

/-- The candidates for a target; asking for the names below a path may have effects. -/
def candidates {m : Type → Type} [Monad m] (scope : Scope) (children : String → m (List String)) :
    Target → m (List String)
  | .references stem => return (startingWith stem scope.variableNames).map ("$" ++ ·)
  | .commands stem => return startingWith stem (commandWords ++ scope.aliases)
  | .children lead directory stem =>
    return (startingWith stem (← children directory)).map (lead ++ ·)
  | .nothing => return []

/-- The directory whose children a target asks for. -/
def Target.directory? : Target → Option String
  | .children _ directory _ => some directory
  | _ => none

/-- The text before the word at a byte offset, and the word. -/
def wordAt (line : String) (offset : Nat) : List Char × List Char :=
  cutAfterLast isBreak (takeBytes offset line.toList)

def targetAt (scope : Scope) (line : String) (offset : Nat) : Target :=
  let (head, word) := wordAt line offset
  target scope head word

/-- Completes the word at a byte offset; `children` asks for the names below a path. -/
def completeWith {m : Type → Type} [Monad m] (scope : Scope) (children : String → m (List String))
    (line : String) (offset : Nat) : m Result := do
  let candidates ← candidates scope children (targetAt scope line offset)
  return { start := byteCount (wordAt line offset).1, candidates }

/-- Completes the word at a byte offset; `children` gives the names below a path. -/
def complete (scope : Scope) (children : String → List String) (line : String) (offset : Nat) :
    Result :=
  Id.run (completeWith scope (fun directory => pure (children directory)) line offset)

/-- What is shown of a candidate: its last name. -/
def label (candidate : String) : String := Path.baseName candidate

/-- The names below a path, namespaces included; a path that cannot be listed has no others. -/
def childNames {β : Type} [Hierarchy β] (directory : String) (state : β) : List String × β :=
  let namespaces := (Path.namespaces.filter fun path =>
    path ≠ "/" && Path.parent path = directory).map Path.baseName
  let (children, state) :=
    if ["/", Path.logical, Path.organisation].contains directory then ([], state)
    else
      match Hierarchy.getChildren directory {} state with
      | .ok children state => (children, state)
      | .error _ state => ([], state)
  (startingWith "" (namespaces ++ children.map fun (path, _) => Path.baseName path), state)

end TwinShell.Completion
