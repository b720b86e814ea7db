import TwinShell.Session.Create

/-!
# Deleting, linking and copying objects
-/

namespace TwinShell

/-- The namespaces whose objects can be copied. -/
def copyable : List String :=
  [Path.tags, Path.objectTemplates, Path.roomTemplates, Path.buildingTemplates]

/-- Leaves what lies at or below a deleted path: it is no longer selected, and the session moves up. -/
def Environment.leave (env : Environment) (path : String) : Environment :=
  { env with
    selection := env.selection.filter fun selected => !Path.isUnder selected path
    currentPath := if Path.isUnder env.currentPath path then Path.parent path else env.currentPath }

namespace Command

variable {β ν : Type} [Hierarchy β] [Viewer ν] (ev : Node → Command β ν Value)

/-- Deletes an object and everything below it. -/
def deleteOne (target : String) : Command β ν (List String) := do
  let deleted ← onHierarchy (Hierarchy.deleteObject target)
  modifyEnv (·.leave target)
  notify (Message.delete (viewerId target))
  emitAll (deleted.map (· ++ " deleted"))
  return deleted

def deleteEach : List String → Command β ν (List String)
  | [] => return []
  | target :: rest => do
    let deleted ← deleteOne target
    return deleted ++ (← deleteEach rest)

def delete (path : Node) : Command β ν Value := do
  return textList (← deleteEach (← evalTargets ev path))

/-- Deletes the selected objects. The selection is given up first. -/
def deleteSelection : Command β ν Value := do
  let selection := (← getEnv).selection
  modifyEnv fun env => { env with selection := [] }
  if selection.isEmpty then failRuntime .nothingSelected
  else return textList (← deleteEach selection)

def evalOptionalText : Option Node → Command β ν (Option String)
  | some node => return some (← evalText ev node)
  | none => return none

/-- Moves a stray object below another object. -/
def link (source dest : Node) (slot : Option Node) : Command β ν Value := do
  let source ← evalTarget ev source
  let dest ← evalTarget ev dest
  let slot ← evalOptionalText ev slot
  onHierarchy (Hierarchy.linkObject source dest slot)
  emit (source ++ " linked to " ++ dest)
  return .null

def unlink (source : Node) (dest : Option Node) : Command β ν Value := do
  let source ← evalTarget ev source
  let dest ← match dest with
    | some dest => do pure (some (← evalTarget ev dest))
    | none => pure none
  onHierarchy (Hierarchy.unlinkObject source dest)
  notify (Message.delete (viewerId source))
  emit (source ++ " unlinked")
  return .null

def copyFields (object : Object) (slug : String) : Object :=
  (["id", "name", "createdDate", "lastUpdated"].foldl Dict.erase object).insert "slug" (.str slug)

/-- Copies a tag or a template under a new slug, within its collection. -/
def copy (source dest : Node) : Command β ν Value := do
  let source ← evalTarget ev source
  let dest ← evalText ev dest
  let collection := Path.parent source
  if !copyable.contains collection then failRuntime (.notCopyable source)
  else
    let target ←
      if Text.hasChar dest '/' then resolve dest else pure (Path.join collection dest)
    if Path.parent target ≠ collection then failPath (.copyElsewhere source collection)
    else
      let object ← onHierarchy (Hierarchy.getObject source)
      let fields := copyFields object (Path.baseName target)
      if collection = Path.tags then
        let _ ← onHierarchy (Hierarchy.createObject target .tag fields)
      else onHierarchy (Hierarchy.createTemplate fields)
      emit (source ++ " copied to " ++ target)
      return .null

def loadTemplate (file : Node) : Command β ν Value := do
  let file ← evalText ev file
  let text ← readFile file
  match Json.read text with
  | .error e => failType (.invalidTemplate file e)
  | .ok json =>
    match json.object? with
    | none => failType (.noJsonObject file)
    | some template =>
      onHierarchy (Hierarchy.createTemplate template)
      emit ("Template " ++ file ++ " loaded")
      return .null

end Command

end TwinShell
