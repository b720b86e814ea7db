import TwinShell.Hierarchy.Filter
import TwinShell.Json.Reader
import TwinShell.Path

/-!
# Hierarchies

The objects of the twin live in a hierarchy addressed by paths. What a session needs of it is the class `Hierarchy`; a hierarchy in memory and a client of a service are its instances. An operation that fails may still have changed the state: a client, for one, has then sent its request.
-/

namespace TwinShell

inductive AnswerProblem where
  | noData
  | noObject
  | noObjectList
  | noDocument (e : Json.ReadError)
  deriving DecidableEq

/-- Why an operation on a hierarchy fails. -/
inductive HierarchyError where
  | notFound (path : String)
  | alreadyExists (path : String)
  | unsupported (path : String)
  | notStray (path : String)
  | notPhysical (path : String)
  | noSlug
  | badTemplateCategory
  | refused (status : Nat) (message : String)
  | unreachable (reason : String)
  | badAnswer (problem : AnswerProblem)
  deriving DecidableEq

def AnswerProblem.message : AnswerProblem → String
  | .noData => "missing data"
  | .noObject => "expected an object"
  | .noObjectList => "expected a list of objects"
  | .noDocument e => e.message

def HierarchyError.message : HierarchyError → String
  | .notFound path => "object " ++ path ++ " not found"
  | .alreadyExists path => "object " ++ path ++ " already exists"
  | .unsupported path => path ++ " cannot be reached through the API"
  | .notStray path => path ++ " is not a stray object"
  | .notPhysical path => path ++ " is not in the physical hierarchy"
  | .noSlug => "template has no slug"
  | .badTemplateCategory => "template category must be rack, device, room or building"
  | .refused _ message => message
  | .unreachable reason => "cannot reach the API: " ++ reason
  | .badAnswer problem => "invalid response from the API: " ++ problem.message

/-- What a session needs of a hierarchy with states `β`. -/
class Hierarchy (β : Type) where
  /-- Where the hierarchy is, for the user. -/
  describe : β → String
  /-- The object at a path. -/
  getObject : String → EStateM HierarchyError β Object
  /-- What lies below a path and passes a filter, with paths. -/
  getChildren : String → Filter → EStateM HierarchyError β (List (String × Object))
  /-- Creates an object and gives it as it was created. -/
  createObject : String → Kind → Object → EStateM HierarchyError β Object
  /-- Changes fields of an object and gives it as it then is. -/
  updateObject : String → Object → EStateM HierarchyError β Object
  /-- Deletes an object with everything below it and gives the deleted paths. -/
  deleteObject : String → EStateM HierarchyError β (List String)
  /-- Moves a stray object below another object. -/
  linkObject : String → String → Option String → EStateM HierarchyError β Unit
  /-- Moves an object out of the physical hierarchy. -/
  unlinkObject : String → Option String → EStateM HierarchyError β Unit
  /-- Adds a template to those of its category. -/
  createTemplate : Object → EStateM HierarchyError β Unit

/-- Whether a path names an object. A path that the hierarchy cannot serve names none. -/
def Hierarchy.exists {β : Type} [Hierarchy β] (path : String) : EStateM HierarchyError β Bool :=
  fun state =>
    match Hierarchy.getObject path state with
    | .ok _ state => .ok true state
    | .error (.notFound _) state => .ok false state
    | .error (.unsupported _) state => .ok false state
    | .error e state => .error e state

/-- The templates of a category: where in the hierarchy they are and how the service calls them. -/
inductive TemplateFamily where
  | object
  | room
  | building
  deriving DecidableEq, Repr

def TemplateFamily.of? (template : Object) : Option TemplateFamily :=
  match category? template with
  | some category =>
    if category = "rack" ∨ category = "device" then some .object
    else if category = "room" then some .room
    else if category = "building" ∨ category = "bldg" then some .building
    else none
  | none => none

/-- The fields of an object to be created at a path. -/
def newObject (path : String) (kind : Kind) (payload : Object) : Object :=
  (payload.insertNew "name" (.str (Path.baseName path))).insert "category" (.str kind.name)

end TwinShell
