import TwinShell.Kind
import TwinShell.Language.Operator

/-!
# Syntax trees

A command line is one node. Commands with many arguments keep them in a record of their own, which is generic in what an argument is.
-/

namespace TwinShell

/-- What `ls` is asked for. -/
structure Listing (α : Type) where
  path : α
  category : Option Kind
  /-- The attribute to sort by. -/
  sort : Option String
  /-- Attributes shown beside each name. -/
  attributes : List String
  /-- Attributes with the texts they have to match. -/
  filters : List (String × α)
  recursive : Bool

/-- The creation of an object. Where a size or a template is accepted, only evaluation tells which one it is. -/
inductive Creation (α : Type) where
  | domain (path color : α)
  | site (path : α)
  | building (path position rotation sizeOrTemplate : α)
  | room (path position rotation sizeOrTemplate : α) (axisOrientation floorUnit : Option α)
  | rack (path position rotation sizeOrTemplate : α)
  | device (path positionOrSlot sizeOrTemplate : α) (side : Option α)
  | group (path : α) (children : List α)
  | corridor (path leftRack rightRack temperature : α)
  | tag (slug color : α)
  | orphan (path template : α)

/-- The switches of the viewer's user interface. -/
inductive UiFeature where
  | debug
  | infos
  | wireframe
  deriving DecidableEq, Repr

inductive UiCommand (α : Type) where
  | delay (seconds : α)
  | toggle (feature : UiFeature) (enable : α)
  | highlight (path : α)
  | clearCache

/-- How the camera goes to a place. -/
inductive CameraMotion where
  | move
  | translate
  deriving DecidableEq, Repr

inductive CameraCommand (α : Type) where
  | go (motion : CameraMotion) (position rotation : α)
  | wait (seconds : α)

def UiFeature.name : UiFeature → String
  | .debug => "debug"
  | .infos => "infos"
  | .wireframe => "wireframe"

def CameraMotion.name : CameraMotion → String
  | .move => "move"
  | .translate => "translate"

/-- A command or an expression. -/
inductive Node where
  | nop
  | literal (value : Value)
  /-- A variable. -/
  | symbol (name : String)
  /-- An item of a variable that holds an array. -/
  | element (name : String) (index : Node)
  | array (items : List Node)
  /-- A text with values in it: the template has one `%v` for each argument. -/
  | interpolation (template : String) (args : List Node)
  /-- `format(template, args…)`. -/
  | formatted (template : Node) (args : List Node)
  /-- A path, resolved when it is evaluated. -/
  | path (raw : Node)
  | binary (op : BinaryOp) (left right : Node)
  | negate (operand : Node)
  | not (operand : Node)
  | assign (name : String) (value : Node)
  | defineAlias (name : String) (body : Node)
  | callAlias (name : String)
  | unsetVariable (name : String)
  | unsetAlias (name : String)
  | unsetAttribute (path : Node) (key : String) (index : Option Node)
  /-- The length of a variable that holds an array. -/
  | length (name : String)
  | print (value : Node)
  | showSettings
  | setSetting (name : String) (value : Node)
  /-- Two or more statements. -/
  | sequence (statements : List Node)
  | conditional (condition body : Node) (otherwise : Option Node)
  | whileLoop (condition body : Node)
  | forLoop (init condition step body : Node)
  /-- A loop over the integers between two bounds, both included. -/
  | forRange (name : String) (first last body : Node)
  /-- A loop over the items of an array. -/
  | forEach (name : String) (array body : Node)
  | changeDir (path : Node)
  | printDir
  | list (listing : Listing Node)
  | tree (path : Node) (depth : Option Node)
  | get (path : Node)
  /-- The device at a height of a rack. -/
  | getUnit (path unit : Node)
  /-- The device in a slot of a rack. -/
  | getSlot (path slot : Node)
  | select (path : Node)
  | selectMany (paths : List Node)
  | clearSelection
  | printSelection
  | create (creation : Creation Node)
  /-- An update of an attribute; `sharp` is set by a `#` before the values. -/
  | update (path : Node) (key : String) (values : List Node) (sharp : Bool)
  | delete (path : Node)
  | deleteSelection
  | link (source dest : Node) (slot : Option Node)
  | unlink (source : Node) (dest : Option Node)
  | copy (source dest : Node)
  | draw (path : Node) (depth : Option Node) (force : Bool)
  | undraw (path : Option Node)
  | drawable (path : Node) (key : Option String)
  | ui (command : UiCommand Node)
  | camera (command : CameraCommand Node)
  | focus (path : Option Node)
  | connect (address : Option Node)
  | disconnect
  | runScript (file : Node)
  | checkScript (file : Node)
  | loadTemplate (file : Node)
  | manual (topic : Option String)
  /-- Where the service and the viewer are. -/
  | showPeers
  | clearScreen
  | exit
  deriving Inhabited

namespace Node

def text (s : String) : Node := .literal (.str s)

def literalPath (s : String) : Node := .path (text s)

/-- The node of a list of statements. -/
def ofStatements : List Node → Node
  | [] => .nop
  | [node] => node
  | nodes => .sequence nodes

end Node

end TwinShell
