import TwinShell.Language.Node

/-!
# Environments

What a session remembers: variables, aliases, where it is, what is selected, and its settings. There is a single scope; loops and aliases read and write the same variables as everything else.
-/

namespace TwinShell

inductive SettingError where
  | unknown (name : String)
  | invalid (name expected : String)
  deriving DecidableEq, Repr

def SettingError.message : SettingError → String
  | .unknown name => "unknown setting " ++ name ++ ", expected one of updates, drawLimit, drawable"
  | .invalid name expected => name ++ " expects " ++ expected

/-- The settings of a session. -/
structure Settings where
  /-- How many objects are drawn without being forced. -/
  drawLimit : Int64 := 50
  /-- Whether the viewer is told about changes. -/
  updates : Bool := true
  /-- The categories that are drawn. -/
  drawable : List String :=
    ["site", "building", "room", "rack", "device", "ac", "panel", "cabinet", "corridor", "group"]

namespace Settings

def set (s : Settings) (name : String) (value : Value) : Except SettingError Settings :=
  if name = "updates" then
    match value.bool? with
    | some updates => .ok { s with updates }
    | none => .error (.invalid name "a boolean")
  else if name = "drawLimit" then
    match value.int? with
    | some drawLimit =>
      if 0 ≤ drawLimit then .ok { s with drawLimit } else .error (.invalid name "a positive integer")
    | none => .error (.invalid name "a positive integer")
  else if name = "drawable" then
    match value with
    | .str text =>
      .ok { s with drawable := ((Text.split ',' text).map Text.trim).filter (· ≠ "") }
    | .list items => .ok { s with drawable := items.map Value.text }
    | _ => .error (.invalid name "a comma-separated list of categories")
  else .error (.unknown name)

def entries (s : Settings) : List (String × String) := [
  ("updates", if s.updates then "true" else "false"),
  ("drawLimit", Decimal.intText s.drawLimit.toInt),
  ("drawable", ",".intercalate s.drawable)]

end Settings

/-- What a session remembers. -/
structure Environment where
  /-- The variables with their values. -/
  bindings : Dict Value := .empty
  aliases : Dict Node := .empty
  currentPath : String := "/"
  previousPath : String := "/"
  selection : List String := []
  settings : Settings := {}

namespace Environment

/-- Goes to a path and remembers where it came from. -/
def goTo (env : Environment) (path : String) : Environment :=
  { env with currentPath := path, previousPath := env.currentPath }

def setVariable (env : Environment) (name : String) (value : Value) : Environment :=
  { env with bindings := env.bindings.insert name value }

end Environment

end TwinShell
