import TwinShell.Hierarchy.Basic

/-!
# Hierarchies behind a service

A client turns the operations on a hierarchy into requests and reads the answers. Objects are addressed by the collection they belong to and the dotted names of their path below it. The transport is data: the answers still to come, one for each request, and the requests sent so far.
-/

namespace TwinShell

inductive Method where
  | get
  | post
  | patch
  | delete
  deriving DecidableEq, Repr

def Method.name : Method → String
  | .get => "GET"
  | .post => "POST"
  | .patch => "PATCH"
  | .delete => "DELETE"

structure Request where
  method : Method
  url : String
  authorization : String
  body : Option Json

/-- What came back for a request. A body that is not valid UTF-8 has no text. -/
inductive Answer where
  | reply (status : Nat) (body : Option String)
  | failure (reason : String)

/-- A client of the service. -/
structure ApiClient where
  baseUrl : String
  token : String
  /-- The answers still to come. -/
  answers : List Answer
  /-- The requests sent so far, in order. -/
  requests : Array Request

namespace ApiClient

/-- A client of the service at an address; slashes at its end do not matter. -/
def new (url token : String) (answers : List Answer) : ApiClient :=
  { baseUrl := String.ofList (Text.dropEndWhile (· == '/') url.toList)
    token, answers
    requests := #[] }

/-- The collections of the service by namespace. The stray objects lie inside the physical namespace and come first. -/
def collections : List (String × String) := [
  (Path.stray, "stray_objects"), (Path.objectTemplates, "obj_templates"),
  (Path.roomTemplates, "room_templates"), (Path.buildingTemplates, "bldg_templates"),
  (Path.groups, "groups"), (Path.tags, "tags"), (Path.domains, "domains"),
  (Path.physical, "hierarchy_objects")]

/-- The collection and the dotted name of the object at a path. -/
def locate (path : String) : Except HierarchyError (String × String) :=
  match collections.findSome? fun (root, collection) =>
      (Path.dottedId? path root).map (collection, ·) with
  | some found => .ok found
  | none => .error (.unsupported path)

/-- The collection that a namespace holds. -/
def collectionOf? (path : String) : Option String :=
  (collections.find? (·.1 = path)).map (·.2)

def invalidBody : String := "stream did not contain valid UTF-8"

/-- Sends a request and takes the next answer; when none is left the service is out of order. -/
def transmit (request : Request) : EStateM HierarchyError ApiClient Answer := fun client =>
  let (answer, answers) :=
    match client.answers with
    | answer :: rest => (answer, rest)
    | [] => (.reply 500 (some ""), [])
  .ok answer { client with answers, requests := client.requests.push request }

/-- The message of a refusal: the one in the body if there is one. -/
def refusalMessage (status : Nat) (body : Option String) : String :=
  ((body.bind Json.read?).bind (·.field? "message")).bind Json.text? |>.getD
    ("API responded with status " ++ Decimal.natText status)

/-- The document in the body of an answer; a blank body is `null`. -/
def readAnswer : Answer → Except HierarchyError Json
  | .failure reason => .error (.unreachable reason)
  | .reply status body =>
    if 400 ≤ status then .error (.refused status (refusalMessage status body))
    else
      match body with
      | none => .error (.unreachable invalidBody)
      | some text =>
        if Text.trim text = "" then .ok .null
        else (Json.read text).mapError (.badAnswer ∘ .noDocument)

/-- A result as a step of the client. -/
def settle {α : Type} : Except HierarchyError α → EStateM HierarchyError ApiClient α
  | .ok a => pure a
  | .error e => throw e

def request (method : Method) (endpoint : String) (body : Option Json) :
    EStateM HierarchyError ApiClient Json := do
  let client ← get
  let answer ← transmit
    { method, body
      url := client.baseUrl ++ "/api/" ++ endpoint
      authorization := "Bearer " ++ client.token }
  settle (readAnswer answer)

/-- A request about the object at `path`: the status 404 means that there is none. -/
def requestAbout (path : String) (method : Method) (endpoint : String) (body : Option Json) :
    EStateM HierarchyError ApiClient Json := fun client =>
  match request method endpoint body client with
  | .error (.refused 404 _) client => .error (.notFound path) client
  | result => result

def answerData (json : Json) : Except HierarchyError Json :=
  match json with
  | .obj _ =>
    match json.field? "data" with
    | some data => .ok data
    | none => .error (.badAnswer .noData)
  | _ => .error (.badAnswer .noObject)

def asObject (json : Json) : Except HierarchyError Object :=
  match json.object? with
  | some object => .ok object
  | none => .error (.badAnswer .noObject)

/-- The object in the `data` of an answer. -/
def answerObject (json : Json) : Except HierarchyError Object := answerData json >>= asObject

mutual

/-- The objects nested in the `children` among these fields, those deeper down first, with their paths below `parent`. -/
def nestedIn (filter : Filter) (parent : String) : List (String × Json) → List (String × Object)
  | [] => []
  | field :: rest =>
    match nestedInField filter parent field with
    | some found => found
    | none => nestedIn filter parent rest

def nestedInField (filter : Filter) (parent : String) :
    String × Json → Option (List (String × Object))
  | (key, value) => if key = "children" then some (nestedInArray filter parent value) else none

def nestedInArray (filter : Filter) (parent : String) : Json → List (String × Object)
  | .arr items => nestedInItems filter parent items
  | _ => []

def nestedInItems (filter : Filter) (parent : String) : List Json → List (String × Object)
  | [] => []
  | item :: rest => nestedChild filter parent item ++ nestedInItems filter parent rest

/-- A child and what is nested in it; one without a name does not count. -/
def nestedChild (filter : Filter) (parent : String) : Json → List (String × Object)
  | .obj fields =>
    match (Assoc.find? "name" fields).bind Json.text? with
    | some name =>
      let path := Path.join parent name
      let below := if filter.recursive then nestedIn filter path fields else []
      let object := Dict.ofList fields
      below ++ if filter.accepts object then [(path, object.erase "children")] else []
    | none => []
  | _ => []

end

/-- The objects nested in an object, those deeper down first. -/
def collectChildren (parent : String) (object : Object) (filter : Filter) : List (String × Object) :=
  nestedIn filter parent object.entries

def getObject (path : String) : EStateM HierarchyError ApiClient Object := do
  let (collection, id) ← settle (locate path)
  let answer ← requestAbout path .get (collection ++ "/" ++ id) none
  settle (answerObject answer)

/-- The last name of an object in a collection. -/
def collectionKey (object : Object) : String :=
  (((object.get? "slug").orElse fun _ => object.get? "name").bind Json.text?).getD ""

/-- The listing of one object of a collection. -/
def collectionItem (root : String) (filter : Filter) (json : Json) :
    Except HierarchyError (List (String × Object)) := do
  let object ← asObject json
  let path := Path.join root (collectionKey object)
  let below := if filter.recursive then collectChildren path object filter else []
  return below ++ if filter.accepts object then [(path, object)] else []

def collectionItems (root : String) (filter : Filter) (answer : Json) :
    Except HierarchyError (List (String × Object)) := do
  let data ← answerData answer
  match (data.field? "objects").getD (.arr []) with
  | .arr items => return (← items.mapM (collectionItem root filter)).flatten
  | _ => .error (.badAnswer .noObjectList)

/-- What lies below a path and passes the filter. The physical namespace holds sites. -/
def getChildren (path : String) (filter : Filter) :
    EStateM HierarchyError ApiClient (List (String × Object)) := do
  match collectionOf? path with
  | some collection =>
    let endpoint := if collection = "hierarchy_objects" then "sites" else collection
    let answer ← request .get endpoint none
    settle (collectionItems path filter answer)
  | none =>
    let (collection, id) ← settle (locate path)
    let limit := if filter.recursive then "999" else "1"
    let answer ← requestAbout path .get (collection ++ "/" ++ id ++ "/all?limit=" ++ limit) none
    let object ← settle (answerObject answer)
    return collectChildren path object filter

/-- The collection that new objects of a kind are added to. -/
def kindCollection : Kind → String
  | .stray => "stray_objects"
  | .objectTemplate => "obj_templates"
  | .roomTemplate => "room_templates"
  | .buildingTemplate => "bldg_templates"
  | .airConditioner => "acs"
  | kind => kind.name ++ "s"

/-- Creates an object; below another object it carries the name of its parent. -/
def createObject (path : String) (kind : Kind) (payload : Object) :
    EStateM HierarchyError ApiClient Object := do
  let object := newObject path kind payload
  let parent := Path.parent path
  let object ←
    if Path.isNamespace parent then pure object
    else do
      let (_, id) ← settle (locate parent)
      pure (object.insert "parentId" (.str id))
  let answer ← request .post (kindCollection kind) (some (Json.ofObject object))
  settle (answerObject answer)

def updateObject (path : String) (patch : Object) : EStateM HierarchyError ApiClient Object := do
  let (collection, id) ← settle (locate path)
  let answer ← requestAbout path .patch (collection ++ "/" ++ id) (some (Json.ofObject patch))
  settle (answerObject answer)

def deleteObject (path : String) : EStateM HierarchyError ApiClient (List String) := do
  let (collection, id) ← settle (locate path)
  let _ ← requestAbout path .delete (collection ++ "/" ++ id) none
  return [path]

/-- Moves a stray object below another object. -/
def linkObject (source dest : String) (slot : Option String) :
    EStateM HierarchyError ApiClient Unit := do
  let (collection, id) ← settle (locate source)
  if collection ≠ "stray_objects" then throw (.notStray source)
  let (_, parentId) ← settle (locate dest)
  let body : Object := Dict.ofList
    (("parentId", .str parentId) :: (slot.map fun slot => ("slot", .str slot)).toList)
  let _ ← requestAbout source .patch (collection ++ "/" ++ id ++ "/link") (some (Json.ofObject body))

/-- Moves an object out of the physical hierarchy. -/
def unlinkObject (source : String) (dest : Option String) : EStateM HierarchyError ApiClient Unit := do
  let (collection, id) ← settle (locate source)
  if collection ≠ "hierarchy_objects" then throw (.notPhysical source)
  let body : Json ← match dest with
    | some dest => do
      let (_, parentId) ← settle (locate dest)
      pure (.obj [("parentId", .str parentId)])
    | none => pure (.obj [])
  let _ ← requestAbout source .patch (collection ++ "/" ++ id ++ "/unlink") (some body)

def templateCollection : TemplateFamily → String
  | .object => "obj_templates"
  | .room => "room_templates"
  | .building => "bldg_templates"

def createTemplate (template : Object) : EStateM HierarchyError ApiClient Unit := do
  match TemplateFamily.of? template with
  | none => throw .badTemplateCategory
  | some family =>
    let _ ← request .post (templateCollection family) (some (Json.ofObject template))

instance : Hierarchy ApiClient where
  describe client := client.baseUrl
  getObject := getObject
  getChildren := getChildren
  createObject := createObject
  updateObject := updateObject
  deleteObject := deleteObject
  linkObject := linkObject
  unlinkObject := unlinkObject
  createTemplate := createTemplate

end ApiClient

end TwinShell
