import TwinShell.Session.Create

/-!
# Changing objects

An update turns its values into a patch for each object it applies to. Some attributes are structured (areas, separators, pillars, tags), some are top-level fields, and some are only shown by the viewer; any other attribute is stored as given.
-/

namespace TwinShell

/-- Switches of how the viewer shows an object. -/
def displaySwitches : List String :=
  ["displayContent", "alpha", "tilesName", "tilesColor", "U", "slots", "localCS"]

/-- Attributes that are fields of the object itself. -/
def topLevelKeys : List String := ["description", "domain", "tags"]

/-- The sides of an area, in the order in which they are given. -/
def areaSides : List String := ["top", "bottom", "right", "left"]

def patchOf (key : String) (value : Json) : Object := Dict.empty.insert key value

def attributePatch (key : String) (value : Json) : Object :=
  patchOf "attributes" (.obj [(key, value)])

/-- A named map among the attributes, stored as an object or as its JSON text. -/
def namedMap (object : Object) (key : String) : Object :=
  match (object.get? "attributes").bind (·.field? key) with
  | some (.obj fields) => Dict.ofList fields
  | some (.str text) => ((Json.read? text).bind Json.object?).getD .empty
  | _ => .empty

def singleValue (values : List Value) (key : String) : Except EvalError Value :=
  match values with
  | [value] => .ok value
  | _ => .error (.type (.singleValue key))

/-- One area of a room: the numbers for its sides. -/
def areaOf (value : Value) (name : String) : Except EvalError Json := do
  let sides ← Command.vectorOf value name 4
  return Json.ofObject (Dict.ofList (areaSides.zip (sides.map Json.ofFloat)))

def areasPatch (values : List Value) : Except EvalError Object :=
  match values with
  | [reserved, technical] => do
    let reserved ← areaOf reserved "reserved"
    let technical ← areaOf technical "technical"
    return patchOf "attributes" (.obj [("reserved", reserved), ("technical", technical)])
  | _ => .error (.type .areas)

/-- The name and the entry of a new separator. -/
def separatorEntry (values : List Value) : Except EvalError (String × Json) :=
  match values with
  | [name, start, stop, kind] => do
    let start ← Command.vectorOf start "startPos" 2
    let stop ← Command.vectorOf stop "endPos" 2
    return (name.text, .obj [
      ("endPosXYm", Json.ofVector stop), ("startPosXYm", Json.ofVector start),
      ("type", .str kind.text)])
  | _ => .error (.type .separator)

/-- The name and the entry of a new pillar. -/
def pillarEntry (values : List Value) : Except EvalError (String × Json) :=
  match values with
  | [name, center, size, rotation] =>
    match rotation.float? with
    | none => .error (.type (.shouldBe "rotation" "a number"))
    | some rotation => do
      let center ← Command.vectorOf center "centerXY" 2
      let size ← Command.vectorOf size "sizeXY" 2
      return (name.text, .obj [
        ("centerXY", Json.ofVector center), ("rotation", Json.ofFloat rotation),
        ("sizeXY", Json.ofVector size)])
  | _ => .error (.type .pillar)

/-- The font of a label: a style, or a color. -/
def labelFont (values : List Value) : Except EvalError String :=
  match values with
  | [style] =>
    if style.text = "bold" ∨ style.text = "italic" then .ok style.text else .error (.type .font)
  | [kind, color] =>
    if kind.text = "color" then
      if isColor color.text then .ok ("color@" ++ color.text) else .error (.type .color)
    else .error (.type .font)
  | _ => .error (.type .font)

/-- The name of a domain, and whether everything below gets it too. -/
def domainArguments (values : List Value) : Except EvalError (String × Bool) :=
  match values with
  | [domain] => .ok (domain.text, false)
  | [domain, recursive] =>
    match recursive.bool? with
    | some recursive => .ok (domain.text, recursive)
    | none => .error (.type (.shouldBe "the recursive flag of domain" "a boolean"))
  | _ => .error (.type .domainArguments)

def tagPatch (key : String) (values : List Value) : Except EvalError Object :=
  if key = "slug" ∨ key = "description" then do
    let value ← singleValue values key
    return patchOf key value.toJson
  else if key = "color" then do
    let color ← singleValue values key
    if isColor color.text then return patchOf key (.str color.text) else .error (.type .color)
  else .error (.type .tagAttribute)

/-- The items of an array attribute. Numbers that are all numbers become floats. -/
def attributeItems? (json : Option Json) : Option (List Json) :=
  match json.map Value.ofJson with
  | some (.vector xs) => some (xs.map Json.ofFloat)
  | some (.list items) => some (items.map Value.toJson)
  | _ => none

namespace Command

variable {β ν : Type} [Hierarchy β] [Viewer ν] (ev : Node → Command β ν Value)

/-- Sets a display parameter of an object. -/
def sendInteract (target param : String) (value : Json) : Command β ν Unit := do
  requireViewer
  send (Message.interact (viewerId target) param value)

def addNamed (target key name : String) (entry : Json) : Command β ν Object := do
  let map := namedMap (← onHierarchy (Hierarchy.getObject target)) key
  if map.contains name then emit (key ++ " " ++ name ++ " replaced")
  return attributePatch key (Json.ofObject (map.insert name entry))

def removeNamed (target key name : String) : Command β ν Object := do
  let map := namedMap (← onHierarchy (Hierarchy.getObject target)) key
  if map.contains name then return attributePatch key (Json.ofObject (map.erase name))
  else failRuntime (.noEntry key name target)

def tagsOf (object : Object) : List Json := ((object.get? "tags").bind Json.items?).getD []

/-- Whether a document is a given text. -/
def isTextOf (slug : String) (json : Json) : Bool := json.text? == some slug

/-- The patch that tags an object. The tag must exist. -/
def addTag (target slug : String) : Command β ν Object := do
  let tags := tagsOf (← onHierarchy (Hierarchy.getObject target))
  if !(← pathExists (Path.join Path.tags slug)) then failPath (.unknownTag slug)
  else return patchOf "tags" (.arr (if tags.any (isTextOf slug) then tags else tags ++ [.str slug]))

def removeTag (target slug : String) : Command β ν Object := do
  let tags := tagsOf (← onHierarchy (Hierarchy.getObject target))
  if tags.any (isTextOf slug) then
    return patchOf "tags" (.arr (tags.filter fun tag => !isTextOf slug tag))
  else failRuntime (.notTagged target slug)

/-- The label of an object: a text, or with `sharp` the value of an attribute. -/
def labelText (target value : String) (sharp : Bool) : Command β ν String := do
  if sharp then
    match attributeText? (← onHierarchy (Hierarchy.getObject target)) value with
    | some text => return text
    | none => failRuntime (.noAttribute target value)
  else return value

/-- Gives a domain to everything below an object. -/
def setDomainBelow (target : String) (domain : Json) : Command β ν Unit := do
  let children ← onHierarchy (Hierarchy.getChildren target { recursive := true })
  children.forM fun (child, _) => do
    let _ ← onHierarchy (Hierarchy.updateObject child (patchOf "domain" domain))

/-- The patch for one object; `none` when the update is only for the viewer. -/
def updatePatch (target key : String) (values : List Value) (sharp : Bool) :
    Command β ν (Option Object) := do
  if Path.isUnder target Path.tags then return some (← settle (tagPatch key values))
  match key with
  | "tags" | "separators" | "pillars" => failType (.notSettable key)
  | "areas" => return some (← settle (areasPatch values))
  | "separators+" =>
    let (name, entry) ← settle (separatorEntry values)
    return some (← addNamed target "separators" name entry)
  | "pillars+" =>
    let (name, entry) ← settle (pillarEntry values)
    return some (← addNamed target "pillars" name entry)
  | "separators-" =>
    let name ← settle (singleValue values key)
    return some (← removeNamed target "separators" name.text)
  | "pillars-" =>
    let name ← settle (singleValue values key)
    return some (← removeNamed target "pillars" name.text)
  | "label" =>
    let value ← settle (singleValue values key)
    let label ← labelText target value.text sharp
    sendInteract target "label" (.str label)
    return none
  | "labelFont" =>
    let font ← settle (labelFont values)
    sendInteract target "labelFont" (.str font)
    return none
  | "labelBackground" =>
    let color ← settle (singleValue values key)
    if isColor color.text then
      sendInteract target "labelBackground" (.str color.text)
      return none
    else failType .color
  | "tags+" =>
    let slug ← settle (singleValue values key)
    return some (← addTag target slug.text)
  | "tags-" =>
    let slug ← settle (singleValue values key)
    return some (← removeTag target slug.text)
  | "description" =>
    let value ← settle (singleValue values key)
    return some (patchOf key (.str value.text))
  | "domain" =>
    let (domain, recursive) ← settle (domainArguments values)
    if recursive then setDomainBelow target (.str domain)
    return some (patchOf key (.str domain))
  | _ =>
    let value ← settle (singleValue values key)
    if displaySwitches.contains key then
      match value.bool? with
      | some enable =>
        sendInteract target key (.bool enable)
        return none
      | none => failType (.shouldBe key "a boolean")
    else return some (attributePatch key value.toJson)

def notifyModified (target : String) (object : Object) : Command β ν Unit := do
  if ← isDrawn object then notify (Message.modify (forViewer target object))

/-- Updates one object and gives it as it then is. -/
def updateOne (key : String) (values : List Value) (sharp : Bool) (target : String) :
    Command β ν (Option Value) := do
  match ← updatePatch target key values sharp with
  | none => return none
  | some patch =>
    let object ← onHierarchy (Hierarchy.updateObject target patch)
    notifyModified target object
    return some (.object (object.erase "children"))

def updateEach (key : String) (values : List Value) (sharp : Bool) :
    List String → Command β ν (List Value)
  | [] => return []
  | target :: rest => do
    let updated ← updateOne key values sharp target
    return updated.toList ++ (← updateEach key values sharp rest)

/-- The objects that an update applies to; a single path may end in a pattern. -/
def updateTargets (path : Node) : Command β ν (List String) := do
  match ← evalTargets ev path with
  | [only] => if Text.hasChar (Path.baseName only) '*' then wildcardTargets only else return [only]
  | targets => return targets

def update (path : Node) (key : String) (values : List Node) (sharp : Bool) :
    Command β ν Value := do
  let values ← evalAll ev values
  let targets ← updateTargets ev path
  match ← updateEach key values sharp targets with
  | [] => return .null
  | [object] => return object
  | objects => return .list objects

/-- The patch that removes an attribute, or one item of it. -/
def unsetPatch (target key : String) (index : Option Node) : Command β ν Object := do
  let topLevel := topLevelKeys.contains key
  let patch (value : Json) : Object := if topLevel then patchOf key value else attributePatch key value
  match index with
  | none => return patch .null
  | some index =>
    let index ← evalInt ev index "index"
    let object ← onHierarchy (Hierarchy.getObject target)
    let current :=
      if topLevel then object.get? key else (object.get? "attributes").bind (·.field? key)
    match attributeItems? current with
    | none => failType (.notVector key)
    | some items =>
      if 0 ≤ index.toInt ∧ index.toInt < items.length then
        return patch (.arr (items.eraseIdx index.toInt.toNat))
      else fail (.index items.length index)

def unsetEach (key : String) (index : Option Node) : List String → Command β ν Unit
  | [] => return ()
  | target :: rest => do
    let patch ← unsetPatch ev target key index
    let object ← onHierarchy (Hierarchy.updateObject target patch)
    notifyModified target object
    unsetEach key index rest

def unsetAttribute (path : Node) (key : String) (index : Option Node) : Command β ν Value := do
  unsetEach ev key index (← evalTargets ev path)
  return .null

end Command

end TwinShell
