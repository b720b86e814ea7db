import TwinShell.Text.Blank

/-!
# Pieces of text

Splitting, trimming and comparing texts. Every operation is a function on the list of characters of the text, so a statement about it is a statement about lists.
-/

namespace TwinShell.Text

/-- The pieces of a list of characters between the occurrences of `sep`; there is always at least one piece. -/
def pieces (sep : Char) : List Char → List (List Char)
  | [] => [[]]
  | c :: cs =>
    if c = sep then [] :: pieces sep cs
    else
      match pieces sep cs with
      | [] => [[c]]
      | p :: ps => (c :: p) :: ps

/-- The pieces of a text between the occurrences of `sep`. -/
def split (sep : Char) (text : String) : List String :=
  (pieces sep text.toList).map String.ofList

def dropEndWhile (p : Char → Bool) (cs : List Char) : List Char :=
  (cs.reverse.dropWhile p).reverse

def trimChars (p : Char → Bool) (cs : List Char) : List Char :=
  dropEndWhile p (cs.dropWhile p)

def trimBy (p : Char → Bool) (text : String) : String :=
  String.ofList (trimChars p text.toList)

/-- The text without blanks at either end. -/
def trim (text : String) : String := trimBy isBlank text

def trimEnd (text : String) : String :=
  String.ofList (dropEndWhile isBlank text.toList)

/-- What follows `stem` in `text`, when `text` starts with it. -/
def dropStem? (stem text : String) : Option String :=
  if stem.toList.isPrefixOf text.toList then
    some (String.ofList (text.toList.drop stem.toList.length))
  else none

def startsWith (text stem : String) : Bool := stem.toList.isPrefixOf text.toList

def hasChar (text : String) (c : Char) : Bool := text.toList.contains c

def replaceChar (old : Char) (new : List Char) (text : String) : String :=
  String.ofList (text.toList.flatMap fun c => if c = old then new else [c])

/-- The words of a text: its maximal runs without blanks. -/
def words (text : String) : List String :=
  let rec go : List Char → List Char → List String
    | [], [] => []
    | word, [] => [String.ofList word.reverse]
    | [], c :: cs => if isBlank c then go [] cs else go [c] cs
    | w :: word, c :: cs =>
      if isBlank c then String.ofList (w :: word).reverse :: go [] cs else go (c :: w :: word) cs
  go [] text.toList

/-- A line without the carriage return that ends it, if any. -/
def dropReturn (line : List Char) : List Char :=
  if line.getLast? = some '\r' then line.dropLast else line

/-- The lines of a list of characters. A line feed ends a line, a carriage return just before it belongs to the line end, and what follows the last line feed is a line unless it is empty. -/
def lineChars (cs : List Char) : List (List Char) :=
  let parts := pieces '\n' cs
  parts.dropLast.map dropReturn ++ (parts.getLast?.filter (· ≠ [])).toList

def lines (text : String) : List String := (lineChars text.toList).map String.ofList

end TwinShell.Text
