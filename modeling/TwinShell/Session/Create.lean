import TwinShell.Session.Navigation
import TwinShell.Viewer.Message

/-!
# Creating objects

Every creation command computes a path, a kind and the fields of the new object, and then creates it. The viewer is told if objects of that kind are drawn.
-/

namespace TwinShell

def rackRotations : List (String × List Float) := [
  ("front", [0, 0, 180]), ("rear", [0, 0, 0]), ("left", [0, 90, 0]), ("right", [0, -90, 0]),
  ("top", [90, 0, 0]), ("bottom", [-90, 0, 0])]

def axisOrientations : List String := ["+x+y", "+x-y", "-x-y", "-x+y"]

def floorUnits : List String := ["t", "m", "f"]

def deviceSides : List String := ["front", "rear", "frontflipped", "rearflipped"]

def temperatures : List String := ["cold", "warm"]

/-- A digit of base sixteen, in either case. -/
def isHexDigit (c : Char) : Bool :=
  Text.isDigit c || ('a' ≤ c && c ≤ 'f') || ('A' ≤ c && c ≤ 'F')

/-- A color is six digits of base sixteen. -/
def isColor (text : String) : Bool := text.toList.length == 6 && text.toList.all isHexDigit

def withAttributes (attributes : Object) : Object :=
  Dict.empty.insert "attributes" (Json.ofObject attributes)

/-- A size given literally, or the name of a template. -/
inductive SizeOrTemplate where
  | size (xs : List Float)
  | template (name : String)

def SizeOrTemplate.addTo (attributes : Object) : SizeOrTemplate → Object
  | .size xs => attributes.insert "size" (Json.ofVector xs)
  | .template name => attributes.insert "template" (.str name)

/-- What is to be created: where, of which kind, and with which fields. -/
structure Draft where
  path : String
  kind : Kind
  fields : Object

namespace Command

variable {β ν : Type} [Hierarchy β] [Viewer ν] (ev : Node → Command β ν Value)

/-- A text that has to be one of a few. -/
def oneOf (text : String) (allowed : List String) (what : String) : Command β ν String :=
  if allowed.contains text then pure text
  else failType (.shouldBe what ("one of " ++ ", ".intercalate allowed))

def evalColor (node : Node) : Command β ν String := do
  let color ← evalText ev node
  if isColor color then return color else failType .color

/-- The path of a node, below a namespace unless it is absolute. -/
def pathIn (node : Node) (root : String) : Command β ν String := do
  let raw ← evalRawPath ev node
  if Text.startsWith raw "/" then resolve raw else return Path.join root raw

/-- The path of an existing object, below `parent` unless it is absolute. -/
def sibling (node : Node) (parent : String) : Command β ν String := do
  let target ← pathIn ev node parent
  requirePath target
  return target

def siblings (parent : String) : List Node → Command β ν (List String)
  | [] => return []
  | node :: rest => do
    let path ← sibling ev node parent
    return path :: (← siblings parent rest)

/-- Fails unless there is an object template with this name. -/
def requireTemplate (root name : String) : Command β ν Unit := do
  if !(← pathExists (Path.join root name)) then failRuntime (.templateNotFound name)

/-- A vector of three numbers, or the name of a template. -/
def evalSize (node : Node) (root : String) : Command β ν SizeOrTemplate := do
  let value ← ev node
  match value.vector?, value with
  | some xs, _ => if xs.length = 3 then return .size xs else failType .sizeOrTemplate
  | none, .str name =>
    requireTemplate root name
    return .template name
  | none, _ => failType .sizeOrTemplate

/-- The rotation of a rack, by name or as a vector. -/
def evalRotation (node : Node) : Command β ν (List Float) := do
  let value ← ev node
  let named :=
    match value with
    | .str name => Assoc.find? name rackRotations
    | _ => none
  match named, value.vector? with
  | some xs, _ => return xs
  | none, some xs => if xs.length = 3 then return xs else failType badRotation
  | none, none => failType badRotation
where
  /-- What is said of a rotation that is none. -/
  badRotation : TypeProblem :=
    .shouldBe "rotation" "a vector3, or one of front, rear, left, right, top, bottom"

def evalPosition (node : Node) : Command β ν (List Float) := do
  match (← ev node).vector? with
  | some xs =>
    if xs.length = 2 ∨ xs.length = 3 then return xs
    else failType (.shouldBe "position" "a vector2 or a vector3")
  | none => failType (.shouldBe "position" "a vector2 or a vector3")

/-- The attributes that a building and a room have in common. -/
def evalFootprint (position rotation size : Node) (root : String) : Command β ν Object := do
  let position ← evalVector ev position "posXY" 2
  let rotation ← evalFloat ev rotation "rotation"
  let size ← evalSize ev size root
  let attributes : Object :=
    Dict.ofList [("posXY", Json.ofVector position), ("rotation", Json.ofFloat rotation)]
  return size.addTo attributes

/-- Adds an attribute that may be left out and has to be one of a few texts. -/
def addChoice (attributes : Object) (key what : String) (allowed : List String) :
    Option Node → Command β ν Object
  | none => return attributes
  | some node => do
    let text ← oneOf (← evalText ev node) allowed what
    return attributes.insert key (.str text)

/-- The place of a device: a height, or the slots it takes up. -/
def devicePlace (attributes : Object) (position : Value) : Object :=
  match position.int? with
  | some unit => attributes.insert "posU" (Json.ofWord unit)
  | none =>
    let slots := (Text.split ',' position.text).map Text.trim
    attributes.insert "slot" (.arr (slots.map .str))

def evalDevice (position size : Node) (side : Option Node) : Command β ν Object := do
  let attributes := devicePlace .empty (← ev position)
  let size ← ev size
  let attributes ← match size.int? with
    | some units => pure (attributes.insert "sizeU" (Json.ofWord units))
    | none =>
      requireTemplate Path.objectTemplates size.text
      pure (attributes.insert "template" (.str size.text))
  addChoice ev attributes "orientation" "side" deviceSides side

/-- What a creation command is to create. -/
def draft : Creation Node → Command β ν Draft
  | .domain path color => do
    let path ← pathIn ev path Path.domains
    let color ← evalColor ev color
    return ⟨path, .domain, withAttributes (Dict.ofList [("color", .str color)])⟩
  | .site path => do
    let path ← evalPath ev path
    return ⟨path, .site, withAttributes .empty⟩
  | .building path position rotation size => do
    let path ← evalPath ev path
    let attributes ← evalFootprint ev position rotation size Path.buildingTemplates
    return ⟨path, .building, withAttributes attributes⟩
  | .room path position rotation size axis unit => do
    let path ← evalPath ev path
    let attributes ← evalFootprint ev position rotation size Path.roomTemplates
    let attributes ←
      addChoice ev attributes "axisOrientation" "axisOrientation" axisOrientations axis
    let attributes ← addChoice ev attributes "floorUnit" "floorUnit" floorUnits unit
    return ⟨path, .room, withAttributes attributes⟩
  | .rack path position rotation size => do
    let path ← evalPath ev path
    let position ← evalPosition ev position
    let rotation ← evalRotation ev rotation
    let size ← evalSize ev size Path.objectTemplates
    let attributes : Object :=
      Dict.ofList [("posXYZ", Json.ofVector position), ("rotation", Json.ofVector rotation)]
    return ⟨path, .rack, withAttributes (size.addTo attributes)⟩
  | .device path position size side => do
    let path ← evalPath ev path
    let attributes ← evalDevice ev position size side
    return ⟨path, .device, withAttributes attributes⟩
  | .group path children => do
    let path ← evalPath ev path
    let children ← siblings ev (Path.parent path) children
    let content := ",".intercalate (children.map Path.baseName)
    return ⟨path, .group, withAttributes (Dict.ofList [("content", .str content)])⟩
  | .corridor path leftRack rightRack temperature => do
    let path ← evalPath ev path
    let left ← sibling ev leftRack (Path.parent path)
    let right ← sibling ev rightRack (Path.parent path)
    let temperature ← oneOf (← evalText ev temperature) temperatures "temperature"
    let content := Path.baseName left ++ "," ++ Path.baseName right
    let attributes : Object :=
      Dict.ofList [("content", .str content), ("temperature", .str temperature)]
    return ⟨path, .corridor, withAttributes attributes⟩
  | .tag slug color => do
    let slug ← evalText ev slug
    let color ← evalColor ev color
    let fields : Object :=
      Dict.ofList [("slug", .str slug), ("color", .str color), ("description", .str slug)]
    return ⟨Path.join Path.tags slug, .tag, fields⟩
  | .orphan path template => do
    let path ← pathIn ev path Path.stray
    let template ← evalText ev template
    requireTemplate Path.objectTemplates template
    return ⟨path, .stray, withAttributes (Dict.ofList [("template", .str template)])⟩

/-- An object as the viewer gets it. -/
def forViewer (path : String) (object : Object) : Json :=
  Json.ofObject (object.insert "id" (.str (viewerId path)))

def create (creation : Creation Node) : Command β ν Value := do
  let draft ← draft ev creation
  let object ← onHierarchy (Hierarchy.createObject draft.path draft.kind draft.fields)
  if ← isDrawn object then notify (Message.create (forViewer draft.path object))
  emit (draft.path ++ " successfully created")
  return .object object

end Command

end TwinShell
