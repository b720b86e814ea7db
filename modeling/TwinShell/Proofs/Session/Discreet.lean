import TwinShell.Proofs.Session.Asking
import TwinShell.Proofs.Session.Exit

/-!
# Where the sign for the selection leaks

Nearly every command expands the sign for the selection to the selected paths, or fails, before it asks the hierarchy. Two do not: a creation takes the path that was resolved as it is, and so does the selection of several objects. An evaluator that refuses these two where the path is the sign keeps a session rooted, so the sign reaches the hierarchy in no other way; and what it refuses does reach the hierarchy.
-/

namespace TwinShell

namespace Command

open Session (Rooted)

variable {β ν : Type} [Hierarchy β]

/-! ### Places -/

section Places

omit [Hierarchy β]

theorem rooted_modifyEnv {f : Environment → Environment}
    (hcurrent : ∀ env, (f env).currentPath = env.currentPath)
    (hprevious : ∀ env, (f env).previousPath = env.previousPath)
    (hselection : ∀ env, (f env).selection = env.selection) :
    Keeps Rooted (modifyEnv f : Command (Watched β) ν Unit) := by
  intro s hs
  refine ⟨⟨hs.asked, ?_, ?_, ?_⟩, trivial⟩
  · exact (hcurrent s.env).symm ▸ hs.current
  · exact (hprevious s.env).symm ▸ hs.previous
  · exact (hselection s.env).symm ▸ hs.selection

theorem rooted_select {targets : List String} (htargets : ∀ path ∈ targets, Path.Absolute path) :
    Keeps Rooted (modifyEnv fun env => { env with selection := targets } : Command (Watched β) ν Unit) :=
  fun _ hs => ⟨⟨hs.asked, hs.current, hs.previous, htargets⟩, trivial⟩

theorem rooted_goTo {path : String} (hpath : Path.Absolute path) :
    Keeps Rooted (modifyEnv (·.goTo path) : Command (Watched β) ν Unit) :=
  fun _ hs => ⟨⟨hs.asked, hpath, hs.current, hs.selection⟩, trivial⟩

theorem rooted_leave {path : String} (hpath : Path.Absolute path) :
    Keeps Rooted (modifyEnv (·.leave path) : Command (Watched β) ν Unit) := by
  intro s hs
  refine ⟨⟨hs.asked, ?_, hs.previous, fun selected hselected => ?_⟩, trivial⟩
  · simp only [Environment.leave]
    split
    · exact Path.absolute_parent (.inl hpath)
    · exact hs.current
  · exact hs.selection selected (List.mem_filter.1 hselected).1

end Places

theorem rooted_requireAndGo {target : String} (htarget : Path.Absolute target) : Keeps Rooted (do
    requirePath target
    modifyEnv (·.goTo target)
    return Value.null : Command (Watched β) ν Value) :=
  (rooted_requirePath htarget).bind fun _ => (rooted_goTo htarget).bind fun _ => .pure trivial

theorem rooted_changeDir {target : String} (htarget : Means target) :
    Keeps Rooted (changeDir target : Command (Watched β) ν Value) := by
  refine .ite (fun _ => gives_places.bind fun env henv => ?_) fun hne => ?_
  · split
    · rename_i only honly
      exact rooted_requireAndGo (henv.2 only (honly ▸ List.mem_cons_self))
    · exact Gives.bind (Q := fun _ => False) (.fail _) nofun
  · exact rooted_requireAndGo (htarget.resolve_right hne)

theorem rooted_selectAll {targets : List String} (htargets : ∀ path ∈ targets, Path.Absolute path) :
    Keeps Rooted (select targets : Command (Watched β) ν Value) := by
  apply (Keeps.forM fun target htarget => rooted_requirePath (htargets target htarget)).bind
  intro _
  extract_lets rest
  have hrest : ∀ r, Keeps Rooted (rest r) := fun _ =>
    (rooted_select htargets).bind fun _ => (rooted_emit _).bind fun _ => .pure trivial
  split
  · exact (rooted_goTo (htargets _ List.mem_cons_self)).bind hrest
  · exact hrest ()

/-! ### Changing objects -/

section Patches

variable {target : String} (htarget : Path.Absolute target)
include htarget

theorem rooted_addNamed (key name : String) (entry : Json) :
    Keeps Rooted (addNamed target key name entry : Command (Watched β) ν Object) := by
  apply (rooted_getObject htarget).bind
  intro object
  refine .ite (fun _ => ?_) fun _ => .pure trivial
  exact (rooted_emit _).bind fun _ => .pure trivial

theorem rooted_removeNamed (key name : String) :
    Keeps Rooted (removeNamed target key name : Command (Watched β) ν Object) :=
  (rooted_getObject htarget).bind fun _ => .ite (fun _ => .pure trivial) fun _ => .fail _

theorem rooted_addTag (slug : String) :
    Keeps Rooted (addTag target slug : Command (Watched β) ν Object) := by
  apply (rooted_getObject htarget).bind
  intro object
  apply (rooted_pathExists (Path.absolute_join _ slug)).bind
  intro found
  exact .ite (fun _ => .fail _) fun _ => .pure trivial

theorem rooted_removeTag (slug : String) :
    Keeps Rooted (removeTag target slug : Command (Watched β) ν Object) :=
  (rooted_getObject htarget).bind fun _ => .ite (fun _ => .pure trivial) fun _ => .fail _

theorem rooted_labelText (value : String) (sharp : Bool) :
    Keeps Rooted (labelText target value sharp : Command (Watched β) ν String) := by
  refine .ite (fun _ => (rooted_getObject htarget).bind fun object => ?_) fun _ => .pure trivial
  split
  · exact .pure trivial
  · exact .fail _

variable [Viewer ν]

theorem rooted_patchParts : PatchParts (β := Watched β) (ν := ν) Rooted target where
  addNamed := rooted_addNamed htarget
  removeNamed := rooted_removeNamed htarget
  addTag := rooted_addTag htarget
  removeTag := rooted_removeTag htarget
  labelText := rooted_labelText htarget
  sendInteract := rooted_sendInteract target

theorem rooted_updateOne [Hierarchy.ListsAbsolute β] (key : String) (values : List Value) (sharp : Bool) :
    Keeps Rooted (updateOne key values sharp target : Command (Watched β) ν (Option Value)) := by
  apply (keeps_updatePatch_of_parts sharp (rooted_patchParts htarget) fun _ domain _ =>
    rooted_setDomainBelow htarget (.str domain)).bind
  intro patch
  split
  · exact .pure trivial
  · apply (rooted_updateObject htarget _).bind
    intro object
    exact (rooted_notifyModified target object).bind fun _ => .pure trivial

theorem rooted_deleteOne : Keeps Rooted (deleteOne target : Command (Watched β) ν (List String)) := by
  apply (rooted_asking (List.forall_mem_singleton.2 htarget) _).bind
  intro deleted
  apply (rooted_leave htarget).bind
  intro _
  apply (rooted_notify _).bind
  intro _
  exact (rooted_emitAll _).bind fun _ => .pure trivial

end Patches

section Changes

variable [Viewer ν]

theorem rooted_updateEach [Hierarchy.ListsAbsolute β] (key : String) (values : List Value) (sharp : Bool)
    {targets : List String} (htargets : ∀ path ∈ targets, Path.Absolute path) :
    Keeps Rooted (updateEach key values sharp targets : Command (Watched β) ν (List Value)) := by
  induction targets with
  | nil => exact .pure trivial
  | cons target rest ih =>
    obtain ⟨htarget, hrest⟩ := List.forall_mem_cons.1 htargets
    exact (rooted_updateOne htarget key values sharp).bind fun _ => (ih hrest).bind fun _ => .pure trivial

theorem rooted_deleteEach {targets : List String} (htargets : ∀ path ∈ targets, Path.Absolute path) :
    Keeps Rooted (deleteEach targets : Command (Watched β) ν (List String)) := by
  induction targets with
  | nil => exact .pure trivial
  | cons target rest ih =>
    obtain ⟨htarget, hrest⟩ := List.forall_mem_cons.1 htargets
    exact (rooted_deleteOne htarget).bind fun _ => (ih hrest).bind fun _ => .pure trivial

theorem rooted_deleteSelection : Keeps Rooted (deleteSelection : Command (Watched β) ν Value) := by
  apply gives_places.bind
  intro env henv
  apply (rooted_select (List.forall_mem_nil _)).bind
  intro _
  refine .ite (fun _ => .fail _) fun _ => ?_
  exact (rooted_deleteEach henv.2).bind fun _ => .pure trivial

variable {ev : Node → Command (Watched β) ν Value} (hev : ∀ node, Keeps Rooted (ev node))
include hev

theorem rooted_update [Hierarchy.ListsAbsolute β] (path : Node) (key : String) (values : List Node)
    (sharp : Bool) : Keeps Rooted (update ev path key values sharp) := by
  apply (keeps_evalAll hev values).bind
  intro values
  apply (gives_updateTargets hev path).bind
  intro targets htargets
  apply (rooted_updateEach key values sharp htargets).bind
  intro objects
  split <;> exact .pure trivial

omit [Viewer ν] in
theorem rooted_unsetPatch {target : String} (htarget : Path.Absolute target) (key : String)
    (index : Option Node) : Keeps Rooted (unsetPatch ev target key index) := by
  cases index with
  | none => exact .pure trivial
  | some index =>
    apply (keeps_evalInt hev index _).bind
    intro index
    apply (rooted_getObject htarget).bind
    intro object
    extract_lets current
    split
    · exact .fail _
    · exact .ite (fun _ => .pure trivial) fun _ => .fail _

theorem rooted_unsetEach (key : String) (index : Option Node) {targets : List String}
    (htargets : ∀ path ∈ targets, Path.Absolute path) : Keeps Rooted (unsetEach ev key index targets) := by
  induction targets with
  | nil => exact .pure trivial
  | cons target rest ih =>
    obtain ⟨htarget, hrest⟩ := List.forall_mem_cons.1 htargets
    apply (rooted_unsetPatch hev htarget key index).bind
    intro patch
    apply (rooted_updateObject htarget patch).bind
    intro object
    exact (rooted_notifyModified target object).bind fun _ => ih hrest

theorem rooted_unsetAttribute (path : Node) (key : String) (index : Option Node) :
    Keeps Rooted (unsetAttribute ev path key index) :=
  (absolute_evalTargets hev path).bind fun _ htargets =>
    (rooted_unsetEach hev key index htargets).bind fun _ => .pure trivial

theorem rooted_delete (path : Node) : Keeps Rooted (delete ev path) :=
  (absolute_evalTargets hev path).bind fun _ htargets =>
    (rooted_deleteEach htargets).bind fun _ => .pure trivial

omit [Viewer ν] in
theorem rooted_link (source dest : Node) (slot : Option Node) : Keeps Rooted (link ev source dest slot) := by
  apply (absolute_evalTarget hev source).bind
  intro source hsource
  apply (absolute_evalTarget hev dest).bind
  intro dest hdest
  apply (keeps_evalOptionalText hev slot).bind
  intro slot
  apply (rooted_asking (List.forall_mem_cons.2 ⟨hsource, List.forall_mem_singleton.2 hdest⟩) _).bind
  intro _
  exact (rooted_emit _).bind fun _ => .pure trivial

theorem rooted_unlink (source : Node) (dest : Option Node) : Keeps Rooted (unlink ev source dest) := by
  apply (absolute_evalTarget hev source).bind
  intro source hsource
  extract_lets rest
  have hrest : ∀ dest : Option String, (∀ path ∈ dest, Path.Absolute path) → Keeps Rooted (rest dest) := by
    intro dest hdest
    have hpaths : ∀ path ∈ source :: dest.toList, Path.Absolute path :=
      List.forall_mem_cons.2 ⟨hsource, fun path hpath => hdest path (Option.mem_toList.1 hpath)⟩
    apply (rooted_asking hpaths _).bind
    intro _
    apply (rooted_notify _).bind
    intro _
    exact (rooted_emit _).bind fun _ => .pure trivial
  cases dest with
  | none => exact hrest none nofun
  | some dest =>
    apply (absolute_evalTarget hev dest).bind
    intro dest hdest
    exact hrest (some dest) fun path hpath => Option.some.inj hpath ▸ hdest

omit [Viewer ν] in
theorem rooted_copy (source dest : Node) : Keeps Rooted (copy ev source dest) := by
  apply (absolute_evalTarget hev source).bind
  intro source hsource
  apply (keeps_evalText hev dest).bind
  intro dest
  extract_lets collection rest
  have hrest : ∀ target, Path.Absolute target → Keeps Rooted (rest target) := by
    intro target htarget
    refine .ite (fun _ => .fail _) fun _ => ?_
    apply (rooted_getObject hsource).bind
    intro object
    extract_lets fields done
    have hdone : ∀ r, Keeps Rooted (done r) := fun _ => (rooted_emit _).bind fun _ => .pure trivial
    refine .ite (fun _ => ?_) fun _ => ?_
    · exact (rooted_createObject htarget .tag fields).bind fun _ => hdone ()
    · exact (rooted_asking (List.forall_mem_nil _) _).bind hdone
  clear_value rest
  refine .ite (fun _ => .fail _) fun _ => .ite (fun hslash => ?_) fun _ => ?_
  · have hne : dest ≠ Path.selection := by
      rintro rfl
      exact absurd hslash (by decide)
    exact (gives_resolve_of_ne hne).bind hrest
  · exact Gives.bind (.pure (Path.absolute_join collection dest)) hrest

omit [Viewer ν] in
theorem rooted_loadTemplate (file : Node) : Keeps Rooted (loadTemplate ev file) := by
  apply (keeps_evalText hev file).bind
  intro file
  apply (rooted_readFile file).bind
  intro text
  split
  · exact .fail _
  · split
    · exact .fail _
    · exact (rooted_asking (List.forall_mem_nil _) _).bind fun _ => (rooted_emit _).bind fun _ => .pure trivial

/-! ### Drawing -/

theorem rooted_draw [Hierarchy.ListsAbsolute β] (path : Node) (depth : Option Node) (force : Bool) :
    Keeps Rooted (draw ev path depth force) := by
  apply keeps_requireViewer.bind
  intro _
  extract_lets rest
  have hrest : ∀ depth, Keeps Rooted (rest depth) := by
    intro depth
    apply (absolute_evalTargets hev path).bind
    intro targets htargets
    apply (rooted_drawnFromEach depth htargets).bind
    intro objects
    apply Keeps.getEnv.bind
    intro env
    exact .ite (fun _ => .fail _) fun _ => (rooted_drawEach _).bind fun _ => .pure trivial
  split
  · exact (keeps_evalInt hev _ _).bind fun _ => hrest _
  · exact hrest _

theorem rooted_ui (command : UiCommand Node) : Keeps Rooted (ui ev command) := by
  apply keeps_requireViewer.bind
  intro _
  apply (rooted_uiMessage hev command).bind
  intro message
  exact (rooted_send message).bind fun _ => .pure trivial

theorem rooted_focus (path : Option Node) : Keeps Rooted (focus ev path) := by
  apply keeps_requireViewer.bind
  intro _
  cases path with
  | none => exact (rooted_send _).bind fun _ => .pure trivial
  | some path =>
    apply (absolute_evalTarget hev path).bind
    intro target htarget
    apply (rooted_requirePath htarget).bind
    intro _
    apply (rooted_send _).bind
    intro _
    exact (rooted_goTo htarget).bind fun _ => .pure trivial

end Changes

/-! ### Discreet evaluation -/

section Evaluation

variable [Viewer ν]

/-- Creates what was drafted. -/
def createDraft (draft : Draft) : Command β ν Value := do
  let object ← onHierarchy (Hierarchy.createObject draft.path draft.kind draft.fields)
  if ← isDrawn object then notify (Message.create (forViewer draft.path object))
  emit (draft.path ++ " successfully created")
  return .object object

theorem create_eq (ev : Node → Command β ν Value) (creation : Creation Node) :
    create ev creation = draft ev creation >>= createDraft := rfl

/-- Creates an object, but not at the sign for the selection. -/
def createDiscreetly (ev : Node → Command β ν Value) (creation : Creation Node) :
    Command β ν Value := do
  let draft ← draft ev creation
  if draft.path = Path.selection then throw .exhausted else createDraft draft

/-- Selects several objects, but not if the sign for the selection is among their paths. -/
def selectDiscreetly (targets : List String) : Command β ν Value :=
  if Path.selection ∈ targets then throw .exhausted else select targets

/-- Evaluates a node like `step`, but creates and selects discreetly. -/
def stepDiscreetly (ev : Node → Command β ν Value) (fuel : Nat) (node : Node) : Command β ν Value :=
  match node with
  | .create creation => createDiscreetly ev creation
  | .selectMany paths => do selectDiscreetly (← evalPaths ev paths)
  | node => step ev fuel node

/-- Evaluates a node like `execute`, but creates and selects discreetly. -/
def executeDiscreetly : Nat → Node → Command β ν Value
  | 0, _ => throw .exhausted
  | fuel + 1, node => stepDiscreetly (executeDiscreetly fuel) fuel node

theorem rooted_createDraft {draft : Draft} (hpath : Path.Absolute draft.path) :
    Keeps Rooted (createDraft draft : Command (Watched β) ν Value) := by
  apply (rooted_createObject hpath draft.kind draft.fields).bind
  intro object
  apply (keeps_isDrawn object).bind
  intro drawn
  extract_lets rest
  have hrest : ∀ r, Keeps Rooted (rest r) := fun _ => (rooted_emit _).bind fun _ => .pure trivial
  exact .ite (fun _ => (rooted_notify _).bind hrest) fun _ => hrest ()

end Evaluation

end Command

/-- Whether a node itself asks nothing of the hierarchy, and is steady. -/
def Node.asksNothing : Node → Bool
  | .unsetAttribute .. | .list .. | .tree .. | .get .. | .getUnit .. | .getSlot .. | .update ..
  | .draw .. | .drawable .. | .ui .. | .showPeers => false
  | node => node.isSteady

namespace Command

open Session (Rooted)

variable {β ν : Type} [Hierarchy β] [Viewer ν]

/-- What asks nothing of the hierarchy does the same over one that never changes. -/
theorem step_of_asksNothing (ev : Node → Command β ν Value) (fuel : Nat) {node : Node}
    (hnode : node.asksNothing) : step ev fuel node = @step β ν (.mute β) _ ev fuel node := by
  cases node with
  | unsetAttribute | list | tree | get | getUnit | getSlot | update | draw | drawable | ui | showPeers
  | changeDir | select | selectMany | focus | create | delete | deleteSelection | link | unlink | copy
  | loadTemplate => cases hnode
  | _ => rfl

theorem isSteady_of_asksNothing {node : Node} (hnode : node.asksNothing) : node.isSteady := by
  cases node with
  | unsetAttribute | list | tree | get | getUnit | getSlot | update | draw | drawable | ui
  | showPeers => cases hnode
  | _ => exact hnode

theorem stepDiscreetly_of_isSteady {ev : Node → Command β ν Value} {fuel : Nat} {node : Node}
    (h : node.isSteady) : stepDiscreetly ev fuel node = step ev fuel node := by
  cases node with
  | create | selectMany => cases h
  | _ => rfl

section Nested

variable {ev : Node → Command (Watched β) ν Value} (hev : ∀ node, Keeps Rooted (ev node))
include hev

theorem rooted_createDiscreetly (creation : Creation Node) :
    Keeps Rooted (createDiscreetly ev creation) := by
  apply (means_draft hev creation).bind
  intro draft hdraft
  exact .ite (fun _ => .throw _) fun hne => rooted_createDraft (hdraft.resolve_right hne)

omit [Viewer ν] in
theorem rooted_selectDiscreetly (paths : List Node) :
    Keeps Rooted (evalPaths ev paths >>= selectDiscreetly) := by
  apply (means_evalPaths hev paths).bind
  intro targets htargets
  refine .ite (fun _ => .throw _) fun hnone => rooted_selectAll fun path hpath => ?_
  exact (htargets path hpath).resolve_right fun heq => hnone (heq ▸ hpath)

/-- Every node keeps a session rooted, if the nodes inside it do. -/
theorem rooted_stepDiscreetly [Hierarchy.ListsAbsolute β] (fuel : Nat) (node : Node) :
    Keeps Rooted (stepDiscreetly ev fuel node) := by
  by_cases hnode : node.asksNothing
  · have hsteady := isSteady_of_asksNothing hnode
    rw [stepDiscreetly_of_isSteady hsteady, step_of_asksNothing ev fuel hnode]
    exact @keeps_step_of_steady _ _ (.mute _) _ _ rooted_steady ev hev fuel node hsteady
  have hset (name : String) (value : Value) :
      Keeps Rooted (modifyEnv (·.setVariable name value) : Command (Watched β) ν Unit) :=
    rooted_modifyEnv (fun _ => rfl) (fun _ => rfl) fun _ => rfl
  have haliases (f : Dict Node → Dict Node) : Keeps Rooted
      (modifyEnv fun env => { env with aliases := f env.aliases } : Command (Watched β) ν Unit) :=
    rooted_modifyEnv (fun _ => rfl) (fun _ => rfl) fun _ => rfl
  cases node with
  | assign name value => exact keeps_assign hev (fun value _ => hset name value) value
  | defineAlias name body => exact (haliases (·.insert name body)).bind fun _ => .pure trivial
  | unsetVariable name =>
    exact keeps_unsetVariable (rooted_modifyEnv (fun _ => rfl) (fun _ => rfl) fun _ => rfl)
  | unsetAlias name => exact keeps_unsetAlias (haliases (·.erase name))
  | forRange name first last body => exact keeps_forRange hev (fun n => hset name (.int n)) first last body
  | forEach name array body => exact keeps_forEach hev (hset name) array body
  | changeDir path => exact (means_evalPath hev path).bind fun _ htarget => rooted_changeDir htarget
  | select path => exact (absolute_evalTargets hev path).bind fun _ htargets => rooted_selectAll htargets
  | selectMany paths => exact rooted_selectDiscreetly hev paths
  | clearSelection =>
    exact (rooted_select (List.forall_mem_nil _)).bind fun _ =>
      (rooted_emit _).bind fun _ => .pure trivial
  | create creation => exact rooted_createDiscreetly hev creation
  | delete path => exact rooted_delete hev path
  | deleteSelection => exact rooted_deleteSelection
  | link source dest slot => exact rooted_link hev source dest slot
  | unlink source dest => exact rooted_unlink hev source dest
  | copy source dest => exact rooted_copy hev source dest
  | focus path => exact rooted_focus hev path
  | loadTemplate file => exact rooted_loadTemplate hev file
  | unsetAttribute path key index => exact rooted_unsetAttribute hev path key index
  | list listing => exact rooted_list hev listing
  | tree path depth => exact rooted_tree hev path depth
  | get path => exact rooted_get hev path
  | getUnit path unit => exact rooted_getUnit hev path unit
  | getSlot path slot => exact rooted_getSlot hev path slot
  | update path key values sharp => exact rooted_update hev path key values sharp
  | draw path depth force => exact rooted_draw hev path depth force
  | drawable path key => exact rooted_drawable hev path key
  | ui command => exact rooted_ui hev command
  | showPeers => exact Keeps.get.bind fun _ => (rooted_emitAll _).bind fun _ => .pure trivial
  | _ => exact absurd rfl hnode

end Nested

theorem rooted_executeDiscreetly [Hierarchy.ListsAbsolute β] (fuel : Nat) (node : Node) :
    Keeps Rooted (executeDiscreetly fuel node : Command (Watched β) ν Value) := by
  induction fuel generalizing node with
  | zero => exact .throw _
  | succ fuel ih => exact rooted_stepDiscreetly ih fuel node

/-! ### What is refused -/

/-- The hierarchy was asked about the sign for the selection. -/
def Leaked (s : Session (Watched β) ν) : Prop := Path.selection ∈ s.hierarchy.asked

omit [Hierarchy β] [Viewer ν] in
theorem leaked_asking {α : Type} (paths : List String) (op : EStateM HierarchyError β α) :
    Keeps Leaked (onHierarchy (Watched.asking paths op) : Command (Watched β) ν α) := by
  intro s hs
  simp only [onHierarchy, Watched.asking]
  cases op s.hierarchy.inner with
  | ok a inner => exact ⟨List.mem_append_right paths hs, trivial⟩
  | error e inner => exact List.mem_append_right paths hs

omit [Viewer ν] in
theorem leaked_stable : Stable (β := Watched β) (ν := ν) Leaked where
  output _ _ hs := hs
  viewer _ _ hs := hs
  reads _ _ hs := hs
  getObject _ := leaked_asking _ _
  getChildren _ _ := leaked_asking _ _

omit [Hierarchy β] [Viewer ν] in
theorem Keeps.after {α : Type} {P : Session β ν → Prop} {c : Command β ν α} (h : Keeps P c)
    {s : Session β ν} (hs : P s) : P (after c s) := by
  have hpost := h s hs
  unfold Command.after
  split
  · rename_i heq
    rw [heq] at hpost
    exact hpost.1
  · rename_i heq
    rw [heq] at hpost
    exact hpost

/-- A step that asks the hierarchy about the sign for the selection. -/
def Leaks {α : Type} (c : Command (Watched β) ν α) : Prop := ∀ s, Leaked (after c s)

omit [Hierarchy β] [Viewer ν] in
theorem Leaks.bind {α γ : Type} {x : Command (Watched β) ν α} {f : α → Command (Watched β) ν γ}
    (hx : Leaks x) (hf : ∀ a, Keeps Leaked (f a)) : Leaks (x >>= f) := by
  intro s
  have hfirst := hx s
  cases h : x s with
  | error stop t =>
    rw [after_of_error h] at hfirst
    rwa [after_bind_of_error h]
  | ok a t =>
    rw [after_of_ok h] at hfirst
    rw [after_bind_of_ok h]
    exact (hf a).after hfirst

omit [Hierarchy β] [Viewer ν] in
theorem leaks_asking {α : Type} {paths : List String} (hpaths : Path.selection ∈ paths)
    (op : EStateM HierarchyError β α) :
    Leaks (onHierarchy (Watched.asking paths op) : Command (Watched β) ν α) := by
  intro s
  simp only [after, onHierarchy, Watched.asking]
  cases op s.hierarchy.inner with
  | ok a inner => exact List.mem_append_left _ hpaths
  | error e inner => exact List.mem_append_left _ hpaths

theorem leaks_createDraft {draft : Draft} (hpath : draft.path = Path.selection) :
    Leaks (createDraft draft : Command (Watched β) ν Value) := by
  apply (leaks_asking (List.mem_singleton.2 hpath.symm) _).bind
  intro object
  apply (keeps_isDrawn object).bind
  intro drawn
  extract_lets rest
  have hrest : ∀ r, Keeps Leaked (rest r) := fun _ =>
    (keeps_emit leaked_stable _).bind fun _ => .pure trivial
  exact .ite (fun _ => (keeps_notify leaked_stable _).bind hrest) fun _ => hrest ()

omit [Viewer ν] in
theorem leaks_requireSelection : Leaks (requirePath Path.selection : Command (Watched β) ν Unit) := by
  refine Leaks.bind ?_ fun _ => .ite (fun _ => .fail _) fun _ => .pure trivial
  rw [pathExists, if_neg Path.isNamespace_selection]
  intro s
  have hget := leaks_asking (ν := ν) (List.mem_singleton_self Path.selection)
    (Hierarchy.getObject (β := β) Path.selection) s
  simp only [after, onHierarchy, Hierarchy.exists, Hierarchy.getObject] at hget ⊢
  generalize Watched.asking [Path.selection] (Hierarchy.getObject Path.selection) s.hierarchy =
    result at hget ⊢
  cases result with
  | ok object state => exact hget
  | error e state => cases e <;> exact hget

omit [Viewer ν] in
/-- Paths are looked up one after the other, up to the first that is missing. -/
theorem leaked_select {first others : List String} {s t : Session (Watched β) ν}
    (hfirst : first.forM requirePath s = .ok () t) :
    Leaked (after (select (first ++ Path.selection :: others)) s) := by
  have hfound : Leaks (requirePath Path.selection >>= fun _ => others.forM requirePath :
      Command (Watched β) ν Unit) :=
    leaks_requireSelection.bind fun _ => Keeps.forM fun path _ => keeps_requirePath leaked_stable path
  have hplace (f : Environment → Environment) :
      Keeps Leaked (modifyEnv f : Command (Watched β) ν Unit) := fun _ hs => ⟨hs, trivial⟩
  have hall : (first ++ Path.selection :: others).forM requirePath =
      (first.forM requirePath >>= fun _ => requirePath Path.selection >>= fun _ =>
        others.forM requirePath : Command (Watched β) ν Unit) := List.forM_append
  rw [select, hall, bind_assoc, after_bind_of_ok hfirst]
  refine hfound.bind (fun _ => ?_) t
  extract_lets rest
  have hrest : ∀ r, Keeps Leaked (rest r) := fun _ =>
    (hplace _).bind fun _ => (keeps_emit leaked_stable _).bind fun _ => .pure trivial
  split
  · exact (hplace _).bind hrest
  · exact hrest ()

omit [Hierarchy β] [Viewer ν] in
/-- The sign for the selection stands for the selected paths, and for nothing if there are none. -/
theorem evalTargets_of_selection {ev : Node → Command β ν Value} {path : Node} {s t : Session β ν}
    (h : evalPath ev path s = .ok Path.selection t) :
    evalTargets ev path s = if t.env.selection.isEmpty
      then .error (.failed (.runtime .nothingSelected)) t else .ok t.env.selection t := by
  rw [evalTargets, bind_of_ok h, if_neg (not_not_intro rfl)]
  have henv : (getEnv : Command β ν Environment) t = .ok t.env t := rfl
  rw [bind_of_ok henv]
  split <;> rfl

end Command

namespace Session

open Command

/-- A session over a watched hierarchy at absolute places. -/
def watching {β ν : Type} (hierarchy : β) (viewer : ν) (selection : List String) :
    Session (Watched β) ν where
  hierarchy := { inner := hierarchy }
  viewer := viewer
  env := { selection }

theorem rooted_watching {β ν : Type} (hierarchy : β) (viewer : ν) {selection : List String}
    (h : ∀ path ∈ selection, Path.Absolute path) : (watching hierarchy viewer selection).Rooted := by
  have hroot : Path.Absolute "/" := by decide
  exact ⟨List.forall_mem_nil _, hroot, hroot, h⟩

/-- A command that is not refused asks about absolute paths only. A path that means the selection is expanded to it, or nothing is selected and the command fails; what is refused, a creation or a selection of several paths, asks about the sign itself. -/
theorem rooted_unless_refused {β ν : Type} [Hierarchy β] [Hierarchy.ListsAbsolute β] [Viewer ν]
    (s : Session (Watched β) ν) (hs : s.Rooted) (fuel : Nat) :
    (∀ node, execute fuel node s = executeDiscreetly fuel node s → (after (execute fuel node) s).Rooted) ∧
      (∀ path t, evalPath (execute fuel) path s = .ok Path.selection t →
        evalTargets (execute fuel) path s = if t.env.selection.isEmpty
          then .error (.failed (.runtime .nothingSelected)) t else .ok t.env.selection t) ∧
      (∀ creation draft t, Command.draft (execute fuel) creation s = .ok draft t →
        draft.path = Path.selection → Leaked (after (create (execute fuel) creation) s)) ∧
      ∀ first others t, first.forM requirePath s = .ok () t →
        Leaked (after (select (first ++ Path.selection :: others)) s) := by
  refine ⟨fun node hnode => ?_, fun path t => evalTargets_of_selection, ?_, ?_⟩
  · rw [after_congr hnode]
    exact (rooted_executeDiscreetly fuel node).after hs
  · intro creation draft t hdraft hpath
    rw [create_eq, after_bind_of_ok hdraft]
    exact leaks_createDraft hpath t
  · exact fun first others t => leaked_select

/-- The selected site is shown, and is what the store is asked about. -/
theorem rooted_unless_refused_shown :
    let store := Store.empty.insert "/Physical/a" .empty
    let s := watching store ({} : Recorder) ["/Physical/a"]
    s.Rooted ∧ execute 4 (.get (.literalPath "_")) s = executeDiscreetly 4 (.get (.literalPath "_")) s ∧
      (after (execute 4 (.get (.literalPath "_"))) s).Rooted ∧
      (after (execute 4 (.get (.literalPath "_"))) s).hierarchy.asked = ["/Physical/a"] := by
  intro store s
  have hs : s.Rooted := rooted_watching _ _ (by decide)
  have hnode : execute 4 (.get (.literalPath "_")) s =
      executeDiscreetly 4 (.get (.literalPath "_")) s := rfl
  exact ⟨hs, hnode, (rooted_unless_refused s hs 4).1 _ hnode, by decide +kernel⟩

/-- A site is created at the sign for the selection, although nothing is selected. -/
theorem selection_leaks_to_create :
    let s := watching Store.empty ({} : Recorder) []
    s.Rooted ∧ ∃ node, Language.parse "+site:_" = .ok node ∧ ¬(after (eval node) s).Rooted ∧
      (after (eval node) s).hierarchy.inner.objects.contains Path.selection := by
  intro s
  refine ⟨rooted_watching _ _ (by decide), _, rfl, fun hafter => ?_, by decide +kernel⟩
  exact absurd hafter.asked (by decide +kernel)

end Session

end TwinShell
