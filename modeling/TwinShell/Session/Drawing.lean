import TwinShell.Session.Create

/-!
# Talking to the viewer

Drawing objects, driving the user interface and the camera, and connecting.
-/

namespace TwinShell

namespace Command

variable {β ν : Type} [Hierarchy β] [Viewer ν] (ev : Node → Command β ν Value)

/-- How many levels `child` lies below `root`. -/
def levelBelow (child root : String) : Nat := (Text.split '/' (relativeName child root)).length

/-- An object and what lies at most `depth` levels below it. -/
def drawnFrom (depth : Int64) (target : String) : Command β ν (List (String × Object)) := do
  let object ← onHierarchy (Hierarchy.getObject target)
  if 0 < depth then
    let children ← onHierarchy (Hierarchy.getChildren target { recursive := true })
    return (target, object) :: children.filter fun (child, _) =>
      (levelBelow child target : Int) ≤ depth.toInt
  else return [(target, object)]

def drawnFromEach (depth : Int64) : List String → Command β ν (List (String × Object))
  | [] => return []
  | target :: rest => do
    let objects ← drawnFrom depth target
    return objects ++ (← drawnFromEach depth rest)

/-- Sends objects to be drawn; an object that has an id keeps it. -/
def drawEach : List (String × Object) → Command β ν Unit
  | [] => return ()
  | (path, object) :: rest => do
    send (Message.create (Json.ofObject (object.insertNew "id" (.str (viewerId path)))))
    drawEach rest

/-- Draws what a path designates, with `force` however much it is. -/
def draw (path : Node) (depth : Option Node) (force : Bool) : Command β ν Value := do
  requireViewer
  let depth ← match depth with
    | some depth => evalInt ev depth "depth"
    | none => pure 0
  let objects ← drawnFromEach depth (← evalTargets ev path)
  let settings := (← getEnv).settings
  let objects := objects.filter fun (_, object) => (category? object).any settings.drawable.contains
  if !force && settings.drawLimit.toInt < objects.length then
    failRuntime (.aboveDrawLimit objects.length settings.drawLimit)
  else
    drawEach objects
    return .null

/-- Takes what a path designates off the view, or everything. -/
def undraw (path : Option Node) : Command β ν Value := do
  requireViewer
  let ids ← match path with
    | some path => do pure ((← evalTargets ev path).map viewerId)
    | none => pure [""]
  ids.forM fun id => send (Message.delete id)
  return .null

/-- Tells whether an object is drawn, and has an attribute if one is named. -/
def drawable (path : Node) (key : Option String) : Command β ν Value := do
  let target ← evalTarget ev path
  let object ← onHierarchy (Hierarchy.getObject target)
  let drawn ← isDrawn object
  let drawn := drawn && key.all fun key => (attributeText? object key).isSome
  emit (Value.bool drawn).text
  return .bool drawn

def uiMessage : UiCommand Node → Command β ν Json
  | .delay seconds => do
    return Message.ui "delay" (Json.ofFloat (← evalFloat ev seconds "delay"))
  | .toggle feature enable => do
    return Message.ui feature.name (.bool (← evalBool ev enable feature.name))
  | .highlight path => do
    let target ← evalTarget ev path
    requirePath target
    return Message.ui "highlight" (.str (viewerId target))
  | .clearCache => return Message.ui "clearcache" (.str "")

def ui (command : UiCommand Node) : Command β ν Value := do
  requireViewer
  send (← uiMessage ev command)
  return .null

/-- The message of a command for the camera. Waiting is a move whose first rotation is the time. -/
def cameraMessage : CameraCommand Node → Command β ν Json
  | .go motion position rotation => do
    let position ← evalVector ev position "position" 3
    let rotation ← evalVector ev rotation "rotation" 2
    match position, rotation with
    | [x, y, z], [rx, ry] => return Message.camera motion.name x y z rx ry
    | _, _ => failType (.shouldBe "position" (vectorSort 3))
  | .wait seconds => do
    return Message.camera "wait" 0 0 0 (← evalFloat ev seconds "delay") 0

def camera (command : CameraCommand Node) : Command β ν Value := do
  requireViewer
  send (← cameraMessage ev command)
  return .null

/-- Looks at an object and goes to it, or looks at nothing in particular. -/
def focus (path : Option Node) : Command β ν Value := do
  requireViewer
  match path with
  | none =>
    send (Message.focus "")
    return .null
  | some path =>
    let target ← evalTarget ev path
    requirePath target
    send (Message.focus (viewerId target))
    modifyEnv (·.goTo target)
    return .null

/-- Connects to the viewer, at an address or where it was before. -/
def connect (address : Option Node) : Command β ν Value := do
  let address ← match address with
    | some address => evalText ev address
    | none => do pure (Viewer.address (← MonadState.get).viewer)
  onViewer (Viewer.connect address)
  emit ("Connected to OGrEE-3D at " ++ address)
  return .null

def disconnect : Command β ν Value := do
  modify fun s => { s with viewer := Viewer.disconnect s.viewer }
  emit "Disconnected from OGrEE-3D"
  return .null

def showPeers : Command β ν Value := do
  let s ← MonadState.get
  emitAll [
    "API URL : " ++ Hierarchy.describe s.hierarchy,
    "OGrEE-3D URL : " ++ Viewer.address s.viewer,
    "OGrEE-3D connected : " ++ (Value.bool (Viewer.isConnected s.viewer)).text]
  return .null

end Command

end TwinShell
