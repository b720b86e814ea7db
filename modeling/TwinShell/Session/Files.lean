import TwinShell.Dict
import TwinShell.Text.Basic

/-!
# Files

The files that commands can read, by path: `a/b` below the working directory, `/a/b` from the root and `../a` beside the working directory. A file whose bytes are no UTF-8 has no text. A directory is what has a file in it; the working directory, those above it and the root are always there.
-/

namespace TwinShell

inductive FileError where
  | notFound
  | notDirectory
  | isDirectory
  | nameTooLong
  | badName
  | notText
  deriving DecidableEq, Repr

def FileError.message : FileError → String
  | .notFound => "No such file or directory (os error 2)"
  | .notDirectory => "Not a directory (os error 20)"
  | .isDirectory => "Is a directory (os error 21)"
  | .nameTooLong => "File name too long (os error 36)"
  | .badName => "file name contained an unexpected NUL byte"
  | .notText => "stream did not contain valid UTF-8"

/-- The files that can be read, with their texts. -/
structure Files where
  contents : Dict (Option String)

namespace Files

def empty : Files := ⟨.empty⟩

/-- A place among the files: the names that lead to it from the working directory (an empty stem), from the root (a slash) or from a directory above the working one. -/
structure Place where
  stem : String
  names : List String

namespace Place

def path (place : Place) : String := place.stem ++ "/".intercalate place.names

/-- The directory above; the root is above itself. -/
def up (place : Place) : Place :=
  if place.names ≠ [] then { place with names := place.names.dropLast }
  else if place.stem = "/" then place
  else { place with stem := "../" ++ place.stem }

/-- Where a name leads from a place. -/
def step (place : Place) (name : String) : Place :=
  if name = "." then place
  else if name = ".." then place.up
  else { place with names := place.names ++ [name] }

end Place

def isDirectory (files : Files) (place : Place) : Bool :=
  place.names.isEmpty || files.contents.keys.any (Text.startsWith · (place.path ++ "/"))

/-- The longest name, in bytes. -/
def maxName : Nat := 255

/-- The longest path, in bytes. -/
def maxPath : Nat := 4095

def follow (files : Files) (place : Place) : List String → Except FileError Place
  | [] => .ok place
  | name :: rest =>
    if !files.isDirectory place then
      .error (if files.contents.contains place.path then .notDirectory else .notFound)
    else if maxName < name.utf8ByteSize then .error .nameTooLong
    else follow files (place.step name) rest

/-- The names to follow for a path. A slash at its end asks for a directory. -/
def components (path : String) : List String :=
  let names := (Text.split '/' path).filter (· ≠ "")
  if path.toList.getLast? = some '/' then names ++ ["."] else names

/-- Where the names of a path lead from: the root or the working directory. -/
def origin (path : String) : Place := ⟨if Text.startsWith path "/" then "/" else "", []⟩

/-- The place that a path leads to when every directory on its way is there. -/
def placeOf (path : String) : Place := (components path).foldl Place.step (origin path)

def read (files : Files) (path : String) : Except FileError String :=
  if Text.hasChar path '\x00' then .error .badName
  else if path = "" then .error .notFound
  else if maxPath < path.utf8ByteSize then .error .nameTooLong
  else do
    let place ← files.follow (origin path) (components path)
    match files.contents.get? place.path with
    | some (some text) => .ok text
    | some none => .error .notText
    | none => .error (if files.isDirectory place then .isDirectory else .notFound)

/-- The last name of a path, for reports. -/
def fileName (path : String) : String :=
  match ((Text.split '/' path).filter fun name => name ≠ "" && name ≠ ".").getLast? with
  | some name => if name = ".." then path else name
  | none => path

end Files

end TwinShell
