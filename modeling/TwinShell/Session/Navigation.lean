import TwinShell.Session.Basic
import TwinShell.Sorting

/-!
# Finding objects

Moving through the hierarchy, listing and showing what is there, and selecting objects.
-/

namespace TwinShell

/-- The name of an object for the viewer: dotted below the physical namespace, else the last name of its path. -/
def viewerId (path : String) : String :=
  match Path.dottedId? path Path.stray with
  | some id => id
  | none => (Path.dottedId? path Path.physical).getD (Path.baseName path)

/-- The object that stands for a namespace in listings. -/
def namespaceObject (path : String) : Object :=
  Dict.ofList [("category", .str "namespace"), ("name", .str (Path.baseName path))]

def compareTexts (a b : String) : Ordering := if a < b then .lt else if a = b then .eq else .gt

/-- The order of two attribute texts: by value if both are numbers, a NaN being equal to every number, else by code points. Objects without the attribute come last. Numbers and other texts can compare in circles: `9` is before `10`, which is before `1a`, which is before `9`. -/
def compareAttributes : Option String → Option String → Ordering
  | some a, some b =>
    match Decimal.readFloat? a, Decimal.readFloat? b with
    | some x, some y => (Number.compare? (.float x) (.float y)).getD .eq
    | _, _ => compareTexts a b
  | some _, none => .lt
  | none, some _ => .gt
  | none, none => .eq

/-- What of `child` lies below `root`, or `child` itself. -/
def relativeName (child root : String) : String :=
  match Text.dropStem? root child with
  | some rest =>
    let name := String.ofList (rest.toList.dropWhile (· == '/'))
    if name = "" then child else name
  | none => child

/-- The number in an attribute of an object; quotes around it do not matter. -/
def numberAttribute? (object : Object) (key : String) : Option Float :=
  (attributeText? object key).bind fun text => Decimal.readFloat? (Text.trimBy (· == '"') text)

namespace Command

variable {β ν : Type} [Hierarchy β] [Viewer ν] (ev : Node → Command β ν Value)

/-- What lies below a path, with the namespaces among it, sorted by path. -/
def listChildren (target : String) (filter : Filter) : Command β ν (List (String × Object)) := do
  let namespaces :=
    if filter.category.isNone && filter.attributes.isEmpty then
      (Path.namespaces.filter fun path => path ≠ "/" && Path.parent path = target).map fun path =>
        (path, namespaceObject path)
    else []
  let children ←
    if ["/", Path.logical, Path.organisation].contains target then pure []
    else onHierarchy (Hierarchy.getChildren target filter)
  return Sorting.insertionSort (fun a b => a.1 < b.1) (namespaces ++ children)

def changeDir (target : String) : Command β ν Value := do
  let target ←
    if target = Path.selection then
      match (← getEnv).selection with
      | [only] => pure only
      | _ => failPath .severalSelected
    else pure target
  requirePath target
  modifyEnv (·.goTo target)
  return .null

/-- The filter that a listing asks for. A filter on the category names a kind. -/
def listFilter (filter : Filter) : List (String × Node) → Command β ν Filter
  | [] => return filter
  | (key, node) :: rest => do
    let pattern ← evalText ev node
    if key = "category" then
      match Kind.ofName? pattern with
      | some kind => listFilter { filter with category := some kind } rest
      | none => failType (.unknownCategory pattern)
    else listFilter { filter with attributes := filter.attributes ++ [(key, pattern)] } rest

def listLine (name : String) (object : Object) (attributes : List String) : String :=
  name ++ String.join (attributes.map fun key =>
    "    " ++ key ++ ": " ++ (attributeText? object key).getD "-")

/-- Objects sorted by an attribute. The session breaks down if that is seen to be impossible. -/
def sortedBy (key : String) (entries : List (String × Object)) :
    Command β ν (List (String × Object)) :=
  let less (a b : String × Object) : Bool :=
    compareAttributes (attributeText? a.2 key) (attributeText? b.2 key) = .lt
  match Sorting.sort? less entries with
  | some entries => return entries
  | none => throw (.broken .contradictoryOrder)

def list (listing : Listing Node) : Command β ν Value := do
  let target ← evalTarget ev listing.path
  let filter ← listFilter ev
    { category := listing.category, recursive := listing.recursive } listing.filters
  let entries ← listChildren target filter
  let entries ←
    match listing.sort with
    | some key => sortedBy key entries
    | none => pure entries
  let names := entries.map fun (path, object) => (relativeName path target, object)
  emitAll (names.map fun (name, object) => listLine name object listing.attributes)
  return .list (names.map fun (name, _) => .str name)

/-- The lines of a tree for the children of an object; `below` draws what lies below a child. -/
def treeChildren (below : String → String → Command β ν (List String)) (indent : String) :
    List (String × Object) → Command β ν (List String)
  | [] => return []
  | (child, _) :: rest => do
    let (connector, continued) := if rest.isEmpty then ("└── ", "    ") else ("├── ", "│   ")
    let lines ← below child (indent ++ continued)
    return (indent ++ connector ++ Path.baseName child) :: lines ++ (← treeChildren below indent rest)

/-- The lines of a tree below a path, at most `depth` levels. -/
def treeLines : Nat → String → String → Command β ν (List String)
  | 0, _, _ => return []
  | depth + 1, target, indent => do
    let children ← listChildren target {}
    treeChildren (treeLines depth) indent children

/-- Draws a tree of the names below a path. -/
def tree (path : Node) (depth : Option Node) : Command β ν Value := do
  let target ← evalTarget ev path
  let depth ← match depth with
    | some depth => evalInt ev depth "depth"
    | none => pure 1
  let lines ← treeLines depth.toInt.toNat target ""
  emitAll (target :: lines)
  return .null

/-- The paths whose last name matches the pattern that ends `target`. -/
def wildcardTargets (target : String) : Command β ν (List String) := do
  let children ← listChildren (Path.parent target) {}
  let found := (children.map (·.1)).filter fun child =>
    Text.wildcardMatch (Path.baseName target) (Path.baseName child)
  if found.isEmpty then failPath (.noMatch target) else return found

def showObject (path : String) : Command β ν Value := do
  let value := Value.object (← onHierarchy (Hierarchy.getObject path))
  emit value.render
  return value

def showObjects : List String → Command β ν (List Value)
  | [] => return []
  | path :: rest => do
    let value ← showObject path
    return value :: (← showObjects rest)

/-- Shows the object at a path, the selected objects, or those that match a pattern. -/
def get (path : Node) : Command β ν Value := do
  let target ← evalPath ev path
  if target = Path.selection then return .list (← showObjects (← evalTargets ev path))
  else if Text.hasChar (Path.baseName target) '*' then
    return .list (← showObjects (← wildcardTargets target))
  else showObject target

def devicesOf (rack : String) : Command β ν (List (String × Object)) :=
  listChildren rack { category := some .device }

/-- Shows the name of a device that was found, or that there is none. -/
def foundDevice (device : Option (String × Object)) (missing : String) : Command β ν Value := do
  match device with
  | some (path, object) =>
    emit (Path.baseName path)
    return .object object
  | none =>
    emit missing
    return .null

/-- Whether a device takes up a height unit. A device without a size takes up one. -/
def occupiesUnit (unit : Float) (object : Object) : Bool :=
  match numberAttribute? object "posU", numberAttribute? object "sizeU" with
  | some position, some size =>
    let size := if size > 1.0 then size else 1.0
    position ≤ unit && unit < position + size
  | some position, none => position == unit
  | none, _ => false

def getUnit (rack unit : Node) : Command β ν Value := do
  let rack ← evalTarget ev rack
  let unit ← evalInt ev unit "U"
  if unit < 0 then failType .negativeUnit
  else
    let devices ← devicesOf rack
    foundDevice (devices.find? fun (_, object) => occupiesUnit (Decimal.wordFloat unit) object)
      ("no device at U" ++ Decimal.showFloat (Decimal.wordFloat unit) ++ " in " ++ rack)

def inSlot (slot : String) (object : Object) : Bool :=
  match (object.get? "attributes").bind (·.field? "slot") with
  | some (.str s) => s == slot
  | some (.arr items) => items.any fun item => item.text? == some slot
  | _ => false

def getSlot (rack slot : Node) : Command β ν Value := do
  let rack ← evalTarget ev rack
  let slot ← evalText ev slot
  let devices ← devicesOf rack
  foundDevice (devices.find? fun (_, object) => inSlot slot object)
    ("no device in slot " ++ slot ++ " of " ++ rack)

def textList (texts : List String) : Value := .list (texts.map .str)

/-- Selects objects, and goes to the object if it is only one. -/
def select (targets : List String) : Command β ν Value := do
  targets.forM requirePath
  match targets with
  | [only] => modifyEnv (·.goTo only)
  | _ => pure ()
  modifyEnv fun env => { env with selection := targets }
  emit ("Selection made : " ++ ", ".intercalate targets)
  return textList targets

def evalPaths : List Node → Command β ν (List String)
  | [] => return []
  | node :: rest => do
    let path ← evalPath ev node
    return path :: (← evalPaths rest)

def printSelection : Command β ν Value := do
  let selection := (← getEnv).selection
  emitAll (if selection.isEmpty then ["Empty selection"] else selection)
  return textList selection

end Command

end TwinShell
