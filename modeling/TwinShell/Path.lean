import TwinShell.Text.Basic

/-!
# Paths

Objects are addressed by slash-separated paths from a single root, such as `/Physical/SITE/ROOM/RACK`. Resolution is purely textual: it never asks whether an object exists. A path is canonical when it is `/`, or starts with a slash and its segments between slashes are not empty and neither `.` nor `..`.
-/

namespace TwinShell.Path

/-- Stands for the selected objects. -/
def selection : String := "_"

/-- The sites and what they contain. -/
def physical : String := "/Physical"

/-- Devices outside the hierarchy. -/
def stray : String := "/Physical/Stray"

def logical : String := "/Logical"

def objectTemplates : String := "/Logical/ObjectTemplates"

def roomTemplates : String := "/Logical/RoomTemplates"

def buildingTemplates : String := "/Logical/BldgTemplates"

def groups : String := "/Logical/Groups"

def tags : String := "/Logical/Tags"

def organisation : String := "/Organisation"

def domains : String := "/Organisation/Domain"

/-- The paths that exist without an object behind them. -/
def namespaces : List String :=
  ["/", physical, stray, logical, objectTemplates, roomTemplates, buildingTemplates, groups, tags,
    organisation, domains]

/-- Whether a path exists without an object behind it. -/
def isNamespace (path : String) : Bool := namespaces.contains path

/-- The nonempty segments of a path. -/
def segments (path : String) : List String := (Text.split '/' path).filter (· ≠ "")

def ofSegments (segments : List String) : String := "/" ++ "/".intercalate segments

/-- A path without empty segments and with a slash in front. -/
def clean (path : String) : String := ofSegments (segments path)

/-- What one segment of a relative path does to the segments so far. -/
def step (sofar : List String) (word : String) : List String :=
  if word = "." then sofar
  else if word = ".." then sofar.dropLast
  else sofar ++ [word]

/-- The full name of an abbreviated first segment. -/
def fullName (segment : String) : String :=
  if segment = "P" then "Physical"
  else if segment = "L" then "Logical"
  else if segment = "O" then "Organisation"
  else segment

/-- Expands an abbreviated first segment. -/
def expandFirst : List String → List String
  | [] => []
  | first :: rest => fullName first :: rest

/-- The absolute path that `raw` means in the directory `current`. The empty path is the directory itself, `_` stays as it is and `-` is the previous directory; a leading slash makes the path absolute. -/
def resolve (raw current previous : String) : String :=
  let raw := if raw = "" then "." else raw
  if raw = selection then selection
  else if raw = "-" then previous
  else
    let (start, relative) :=
      match raw.toList with
      | '/' :: rest => ([], String.ofList rest)
      | _ => (segments current, raw)
    clean (ofSegments (expandFirst ((Text.split '/' relative).foldl step start)))

def baseName (path : String) : String := ((Text.split '/' path).getLast?).getD path

/-- The path up to its last slash, `/` for a path of one segment. -/
def parent (path : String) : String :=
  let upTo := (Text.pieces '/' path.toList).dropLast
  let cut := ['/'].intercalate upTo
  if cut = [] then "/" else String.ofList cut

def join (parent name : String) : String := clean (parent ++ "/" ++ name)

/-- Whether `path` is `root` or lies below it. -/
def isUnder (path root : String) : Bool :=
  path == root ||
    match Text.dropStem? root path with
    | some rest => Text.startsWith rest "/"
    | none => false

/-- The dotted name of a path strictly below a namespace. -/
def dottedId? (path root : String) : Option String :=
  match Text.dropStem? (root ++ "/") path with
  | some rest => if rest = "" then none else some (Text.replaceChar '/' ['.'] rest)
  | none => none

end TwinShell.Path
