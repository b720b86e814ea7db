import TwinShell.Session.Error

/-!
# Sessions

A session is everything a command can act on. Commands are steps on sessions: a step that fails keeps the changes it made before. A breakdown is `Stop.broken`. Evaluation is bounded by an explicit fuel; running out of it is `Stop.exhausted`. No command catches these two.

The evaluator is written with open recursion: the commands of the modules below take the evaluator `ev` for nested nodes as an argument, and `Session/Eval` ties the knot.
-/

namespace TwinShell

/-- The state of a session over a hierarchy `β` and a viewer `ν`. -/
structure Session (β ν : Type) where
  env : Environment := {}
  hierarchy : β
  viewer : ν
  files : Files := .empty
  /-- The files that were asked for, last first. -/
  reads : List String := []
  /-- The lines printed so far. -/
  output : Array String := #[]
  exitRequested : Bool := false
  /-- How many scripts are running, one inside the other. -/
  scriptDepth : Nat := 0

/-- Why a command stops early. -/
inductive Stop where
  | failed (e : EvalError)
  | broken (cause : Breakdown)
  | exhausted
  deriving DecidableEq

/-- A step on sessions. -/
abbrev Command (β ν α : Type) : Type := EStateM Stop (Session β ν) α

namespace Command

variable {β ν α : Type}

def fail (e : EvalError) : Command β ν α := throw (.failed e)

def failType (problem : TypeProblem) : Command β ν α := fail (.type problem)

def failPath (problem : PathProblem) : Command β ν α := fail (.path problem)

def failRuntime (problem : RuntimeProblem) : Command β ν α := fail (.runtime problem)

/-- A result as a step. -/
def settle : Except EvalError α → Command β ν α
  | .ok a => pure a
  | .error e => fail e

def emit (line : String) : Command β ν Unit :=
  modify fun s => { s with output := s.output.push line }

def emitAll (lines : List String) : Command β ν Unit := lines.forM emit

def getEnv : Command β ν Environment := return (← get).env

def modifyEnv (f : Environment → Environment) : Command β ν Unit :=
  modify fun s => { s with env := f s.env }

def onHierarchy (op : EStateM HierarchyError β α) : Command β ν α := fun s =>
  match op s.hierarchy with
  | .ok a hierarchy => .ok a { s with hierarchy }
  | .error e hierarchy => .error (.failed (.hierarchy e)) { s with hierarchy }

def onViewer (op : EStateM ViewerError ν α) : Command β ν α := fun s =>
  match op s.viewer with
  | .ok a viewer => .ok a { s with viewer }
  | .error e viewer => .error (.failed (.viewer e)) { s with viewer }

def readFile (path : String) : Command β ν String := fun s =>
  let s := { s with reads := path :: s.reads }
  match s.files.read path with
  | .ok text => .ok text s
  | .error e => .error (.failed (.file e)) s

variable [Hierarchy β] [Viewer ν]

def viewerConnected : Command β ν Bool := return Viewer.isConnected (← get).viewer

def requireViewer : Command β ν Unit := do
  if !(← viewerConnected) then fail (.viewer .notConnected)

def send (message : Json) : Command β ν Unit := onViewer (Viewer.send message)

/-- Tells the viewer about a change, if it is connected and wants to know. Whether it can be told does not matter. -/
def notify (message : Json) : Command β ν Unit := fun s =>
  if s.env.settings.updates && Viewer.isConnected s.viewer then
    match Viewer.send message s.viewer with
    | .ok _ viewer => .ok () { s with viewer }
    | .error _ viewer => .ok () { s with viewer }
  else .ok () s

/-- Whether objects of this category are drawn. -/
def isDrawn (object : Object) : Command β ν Bool := do
  let drawable := (← getEnv).settings.drawable
  return (category? object).any drawable.contains

/-- What a path means where the session is. -/
def resolve (raw : String) : Command β ν String := do
  let env ← getEnv
  return Path.resolve raw env.currentPath env.previousPath

/-- Whether a path is a namespace or names an object. -/
def pathExists (path : String) : Command β ν Bool :=
  if Path.isNamespace path then pure true else onHierarchy (Hierarchy.exists path)

/-- Fails unless a path is a namespace or names an object. -/
def requirePath (path : String) : Command β ν Unit := do
  if !(← pathExists path) then failPath (.missing path)

variable (ev : Node → Command β ν Value)

def evalAll : List Node → Command β ν (List Value)
  | [] => return []
  | node :: rest => do
    let value ← ev node
    return value :: (← evalAll rest)

/-- The text of a node; statements without a value have none. -/
def evalText (node : Node) : Command β ν String := do
  match ← ev node with
  | .null => failType .valueExpected
  | value => return value.text

/-- The text of a path, before it is resolved. -/
def evalRawPath (node : Node) : Command β ν String :=
  match node with
  | .path raw => evalText ev raw
  | node => evalText ev node

/-- The absolute path of a node; it may be the sign for the selection. -/
def evalPath (node : Node) : Command β ν String := do resolve (← evalRawPath ev node)

/-- The paths that a command applies to: a path, or the selected objects. -/
def evalTargets (node : Node) : Command β ν (List String) := do
  let target ← evalPath ev node
  if target ≠ Path.selection then return [target]
  let selection := (← getEnv).selection
  if selection.isEmpty then failRuntime .nothingSelected else return selection

/-- The one path that a command applies to. -/
def evalTarget (node : Node) : Command β ν String := do
  match ← evalTargets ev node with
  | [target] => return target
  | [] => failRuntime .nothingSelected
  | _ => failRuntime .singleObject

def evalBool (node : Node) (what : String) : Command β ν Bool := do
  match (← ev node).bool? with
  | some b => return b
  | none => failType (.shouldBe what "a boolean")

def evalInt (node : Node) (what : String) : Command β ν Int64 := do
  match (← ev node).int? with
  | some n => return n
  | none => failType (.shouldBe what "an integer")

def evalFloat (node : Node) (what : String) : Command β ν Float := do
  match (← ev node).float? with
  | some x => return x
  | none => failType (.shouldBe what "a number")

def vectorSort (length : Nat) : String := "a vector of " ++ Decimal.natText length ++ " numbers"

def vectorOf (value : Value) (what : String) (length : Nat) : Except EvalError (List Float) :=
  match value.vector? with
  | some xs =>
    if xs.length = length then .ok xs else .error (.type (.shouldBe what (vectorSort length)))
  | none => .error (.type (.shouldBe what (vectorSort length)))

def evalVector (node : Node) (what : String) (length : Nat) : Command β ν (List Float) := do
  settle (vectorOf (← ev node) what length)

end Command

end TwinShell
