import TwinShell.Text.Basic
import TwinShell.Text.Letter

/-!
# Cursors

A cursor is a place in a command line: how many characters were read and which are left. Going back to an earlier place is keeping an earlier cursor.
-/

namespace TwinShell.Language

/-- A place in a command line. -/
structure Cursor where
  pos : Nat
  rest : List Char
  deriving DecidableEq, Repr

namespace Cursor

def start (line : List Char) : Cursor := ⟨0, line⟩

/-- The place after `n` characters of a line, at most its end. -/
def seek (line : List Char) (n : Nat) : Cursor := ⟨min n line.length, line.drop n⟩

def peek? (c : Cursor) : Option Char := c.rest.head?

def peekAt? (c : Cursor) (offset : Nat) : Option Char := c.rest[offset]?

def atEnd (c : Cursor) : Bool := c.rest.isEmpty

/-- The place `n` characters further on, at most the end. -/
def skip (c : Cursor) (n : Nat) : Cursor := ⟨c.pos + min n c.rest.length, c.rest.drop n⟩

def skipWhile (p : Char → Bool) (c : Cursor) : Cursor :=
  ⟨c.pos + (c.rest.takeWhile p).length, c.rest.dropWhile p⟩

/-- The place after spaces and tabs. -/
def skipSpaces (c : Cursor) : Cursor := c.skipWhile Text.isSpaceOrTab

def startsWith (c : Cursor) (word : String) : Bool := word.toList.isPrefixOf c.rest

def nextIs (p : Char → Bool) (c : Cursor) : Bool := c.peek?.any p

/-- The characters between an earlier place and this one. -/
def charsSince (start c : Cursor) : List Char := start.rest.take (c.pos - start.pos)

def textSince (start c : Cursor) : String := String.ofList (charsSince start c)

end Cursor

end TwinShell.Language
