import TwinShell.Hierarchy.Basic

/-!
# Hierarchies in memory

A store keeps its objects in a dictionary indexed by path. Operations that fail leave it as it was.
-/

namespace TwinShell

/-- A hierarchy in memory. -/
structure Store where
  objects : Dict Object

namespace Store

def empty : Store := ⟨.empty⟩

def insert (s : Store) (path : String) (object : Object) : Store :=
  ⟨s.objects.insert (Path.clean path) object⟩

/-- The paths at or below `root`, in order. -/
def subtree (s : Store) (root : String) : List String :=
  s.objects.keys.filter fun path => Path.isUnder path root

/-- Where an object at `old`, at or below `source`, comes to lie when `source` becomes `target`. -/
def movedPath (source target old : String) : String :=
  target ++ String.ofList (old.toList.drop source.toList.length)

def moveOne (source target : String) (objects : Dict Object) (old : String) : Dict Object :=
  match objects.get? old with
  | some object => (objects.erase old).insert (movedPath source target old) object
  | none => objects

/-- Moves everything at or below `source` to `target`. -/
def moveSubtree (s : Store) (source target : String) : Except HierarchyError Store :=
  if s.objects.contains target then .error (.alreadyExists target)
  else .ok ⟨(s.subtree source).foldl (moveOne source target) s.objects⟩

/-- Whether an object can be created at a path: its parent must be there. -/
def parentExists (s : Store) (path : String) : Bool :=
  Path.isNamespace (Path.parent path) || s.objects.contains (Path.parent path)

def getObject (s : Store) (path : String) : Except HierarchyError Object :=
  match s.objects.get? path with
  | some object => .ok object
  | none => .error (.notFound path)

/-- Whether `path` is listed among the children of `root`. -/
def isChild (root : String) (recursive : Bool) (path : String) : Bool :=
  Path.isUnder path root && path != root && (recursive || Path.parent path == root)

def getChildren (s : Store) (path : String) (filter : Filter) :
    Except HierarchyError (List (String × Object)) :=
  if !Path.isNamespace path && !s.objects.contains path then .error (.notFound path)
  else
    .ok (s.objects.entries.filter fun e =>
      isChild path filter.recursive e.1 && filter.accepts e.2)

def createObject (s : Store) (path : String) (kind : Kind) (payload : Object) :
    Except HierarchyError (Object × Store) :=
  if s.objects.contains path then .error (.alreadyExists path)
  else if !s.parentExists path then .error (.notFound (Path.parent path))
  else
    let object := newObject path kind payload
    .ok (object, ⟨s.objects.insert path object⟩)

/-- Sets a field, or removes it when the value is `null`. -/
def setOrErase (object : Object) (key : String) (value : Json) : Object :=
  if value.isNull then object.erase key else object.insert key value

/-- Applies one field of a patch. Two objects under `attributes` are merged field by field; anything else replaces what was there. -/
def patchField (object : Object) (key : String) (value : Json) : Object :=
  match key, value, object.get? key with
  | "attributes", .obj update, some (.obj current) =>
    object.insert key
      (Json.ofObject (update.foldl (fun o e => setOrErase o e.1 e.2) (Dict.ofList current)))
  | _, _, _ => setOrErase object key value

def applyPatch (object patch : Object) : Object :=
  patch.entries.foldl (fun o e => patchField o e.1 e.2) object

def updateObject (s : Store) (path : String) (patch : Object) :
    Except HierarchyError (Object × Store) :=
  match s.objects.get? path with
  | some object =>
    let object := applyPatch object patch
    .ok (object, ⟨s.objects.insert path object⟩)
  | none => .error (.notFound path)

/-- Deletes an object with everything below it. -/
def deleteObject (s : Store) (path : String) : Except HierarchyError (List String × Store) :=
  let deleted := s.subtree path
  if deleted.isEmpty then .error (.notFound path)
  else .ok (deleted, ⟨deleted.foldl Dict.erase s.objects⟩)

/-- The patch that puts an object into a slot. -/
def slotPatch (slot : String) : Object :=
  Dict.ofList [("attributes", .obj [("slot", .str slot)])]

/-- Moves a stray object below `dest`. -/
def linkObject (s : Store) (source dest : String) (slot : Option String) :
    Except HierarchyError Store := do
  if !Path.isUnder source Path.stray || !s.objects.contains source then .error (.notStray source)
  else if !s.objects.contains dest then .error (.notFound dest)
  else
    let target := Path.join dest (Path.baseName source)
    let moved ← s.moveSubtree source target
    match slot with
    | some slot => (·.2) <$> moved.updateObject target (slotPatch slot)
    | none => .ok moved

/-- Moves an object out of the physical hierarchy, below `dest` or among the stray objects. -/
def unlinkObject (s : Store) (source : String) (dest : Option String) :
    Except HierarchyError Store :=
  if !Path.isUnder source Path.physical || Path.isUnder source Path.stray then
    .error (.notPhysical source)
  else if !s.objects.contains source then .error (.notFound source)
  else s.moveSubtree source (Path.join (dest.getD Path.stray) (Path.baseName source))

def templateNamespace : TemplateFamily → String
  | .object => Path.objectTemplates
  | .room => Path.roomTemplates
  | .building => Path.buildingTemplates

def createTemplate (s : Store) (template : Object) : Except HierarchyError Store :=
  match (template.get? "slug").bind Json.text? with
  | none => .error .noSlug
  | some slug =>
    match TemplateFamily.of? template with
    | none => .error .badTemplateCategory
    | some family =>
      let target := Path.join (templateNamespace family) slug
      if s.objects.contains target then .error (.alreadyExists target)
      else .ok ⟨s.objects.insert target template⟩

/-- An operation that only looks. -/
def looking {α : Type} (f : Store → Except HierarchyError α) : EStateM HierarchyError Store α :=
  fun s =>
    match f s with
    | .ok a => .ok a s
    | .error e => .error e s

/-- An operation that changes the store when it succeeds. -/
def changing {α : Type} (f : Store → Except HierarchyError (α × Store)) :
    EStateM HierarchyError Store α :=
  fun s =>
    match f s with
    | .ok (a, s) => .ok a s
    | .error e => .error e s

instance : Hierarchy Store where
  describe _ := "in-memory hierarchy"
  getObject path := looking (·.getObject path)
  getChildren path filter := looking (·.getChildren path filter)
  createObject path kind payload := changing (·.createObject path kind payload)
  updateObject path patch := changing (·.updateObject path patch)
  deleteObject path := changing (·.deleteObject path)
  linkObject source dest slot := changing fun s => ((), ·) <$> s.linkObject source dest slot
  unlinkObject source dest := changing fun s => ((), ·) <$> s.unlinkObject source dest
  createTemplate template := changing fun s => ((), ·) <$> s.createTemplate template

end Store

end TwinShell
