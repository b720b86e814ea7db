import TwinShell.Proofs.Session.Agreement

/-!
# Commands on objects, for two viewers

Looking at objects asks nothing of the viewer. Creating, updating, unsetting, deleting and unlinking tell it in the middle of their work, and go on whatever becomes of that. So each of these commands agrees with itself for any two viewers as soon as its arguments do. An update is excepted if its attribute is only shown by the viewer: it fails without a connection.
-/

namespace TwinShell

namespace Command

variable {β ν μ : Type} [Hierarchy β]

/-! ### One object after the other -/

theorem agrees_addNamed (target key name : String) (entry : Json) :
    Agrees β ν μ (addNamed target key name entry) (addNamed target key name entry) := by
  apply (agrees_onHierarchy _).bind
  intro object
  exact .ite (fun _ => (agrees_emit _).bind fun _ => .pure _) fun _ => .pure _

theorem agrees_removeNamed (target key name : String) :
    Agrees β ν μ (removeNamed target key name) (removeNamed target key name) :=
  (agrees_onHierarchy _).bind fun _ => .ite (fun _ => .pure _) fun _ => .fail _

theorem agrees_addTag (target slug : String) : Agrees β ν μ (addTag target slug) (addTag target slug) := by
  apply (agrees_onHierarchy _).bind
  intro object
  exact (agrees_pathExists _).bind fun _ => .ite (fun _ => .fail _) fun _ => .pure _

theorem agrees_removeTag (target slug : String) :
    Agrees β ν μ (removeTag target slug) (removeTag target slug) :=
  (agrees_onHierarchy _).bind fun _ => .ite (fun _ => .pure _) fun _ => .fail _

theorem agrees_setDomainBelow (target : String) (domain : Json) :
    Agrees β ν μ (setDomainBelow target domain) (setDomainBelow target domain) := by
  apply (agrees_onHierarchy _).bind
  intro children
  exact .forM (fun _ => (agrees_onHierarchy _).bind fun _ => .pure _) children

section Telling

variable [Viewer ν] [Viewer μ]

theorem agrees_updatePatch {key : String} (hkey : key ∉ Node.shownKeys)
    (target : String) (values : List Value) (sharp : Bool) :
    Agrees β ν μ (updatePatch target key values sharp) (updatePatch target key values sharp) := by
  unfold updatePatch
  refine .ite (fun _ => (Agrees.settle _).bind fun _ => .pure _) fun _ => ?_
  -- One case for each attribute with a rule of its own, and the last one for all others.
  split
  · exact .fail _
  · exact .fail _
  · exact .fail _
  · exact (Agrees.settle _).bind fun _ => .pure _
  · exact (Agrees.settle _).bind fun _ => (agrees_addNamed _ _ _ _).bind fun _ => .pure _
  · exact (Agrees.settle _).bind fun _ => (agrees_addNamed _ _ _ _).bind fun _ => .pure _
  · exact (Agrees.settle _).bind fun _ => (agrees_removeNamed _ _ _).bind fun _ => .pure _
  · exact (Agrees.settle _).bind fun _ => (agrees_removeNamed _ _ _).bind fun _ => .pure _
  -- The three attributes of the label need the viewer, so `key` is none of them.
  · exact absurd (by decide) hkey
  · exact absurd (by decide) hkey
  · exact absurd (by decide) hkey
  · exact (Agrees.settle _).bind fun _ => (agrees_addTag _ _).bind fun _ => .pure _
  · exact (Agrees.settle _).bind fun _ => (agrees_removeTag _ _).bind fun _ => .pure _
  · exact (Agrees.settle _).bind fun _ => .pure _
  · apply (Agrees.settle _).bind
    intro arguments
    refine .ite (fun _ => ?_) fun _ => .pure _
    exact (agrees_setDomainBelow _ _).bind fun _ => .pure _
  · have hswitch : ¬displaySwitches.contains key := fun hmem =>
      hkey (List.mem_append_right _ (List.contains_iff_mem.1 hmem))
    exact (Agrees.settle _).bind fun _ => .ite (fun hmem => absurd hmem hswitch) fun _ => .pure _

theorem agrees_updateOne {key : String} (hkey : key ∉ Node.shownKeys) (values : List Value)
    (sharp : Bool) (target : String) :
    Agrees β ν μ (updateOne key values sharp target) (updateOne key values sharp target) := by
  apply (agrees_updatePatch hkey target values sharp).bind
  intro patch
  cases patch with
  | none => exact .pure _
  | some patch =>
    apply (agrees_onHierarchy _).bind
    intro object
    exact (agrees_notifyModified target object).bind fun _ => .pure _

theorem agrees_updateEach {key : String} (hkey : key ∉ Node.shownKeys) (values : List Value)
    (sharp : Bool) (targets : List String) :
    Agrees β ν μ (updateEach key values sharp targets) (updateEach key values sharp targets) := by
  induction targets with
  | nil => exact .pure _
  | cons target rest ih =>
    exact (agrees_updateOne hkey values sharp target).bind fun _ => ih.bind fun _ => .pure _

theorem agrees_deleteOne (target : String) : Agrees β ν μ (deleteOne target) (deleteOne target) := by
  apply (agrees_onHierarchy _).bind
  intro deleted
  refine Agrees.bind (agrees_modifyEnv fun _ => rfl) fun _ => ?_
  apply (agrees_notify _).bind
  intro _
  exact (agrees_emitAll _).bind fun _ => .pure _

theorem agrees_deleteEach (targets : List String) :
    Agrees β ν μ (deleteEach targets) (deleteEach targets) := by
  induction targets with
  | nil => exact .pure _
  | cons target rest ih => exact (agrees_deleteOne target).bind fun _ => ih.bind fun _ => .pure _

theorem agrees_deleteSelection : Agrees β ν μ deleteSelection deleteSelection := by
  apply agrees_getEnv.bind
  intro env
  refine Agrees.bind (agrees_modifyEnv fun _ => rfl) fun _ => ?_
  exact .ite (fun _ => .fail _) fun _ => (agrees_deleteEach _).bind fun _ => .pure _

end Telling

section Arguments

variable {ev : Node → Command β ν Value} {ev' : Node → Command β μ Value}
  (hev : ∀ node, node.Offline → Agrees β ν μ (ev node) (ev' node)) {node : Node} {nodes : List Node}
include hev

/-! ### Looking -/

theorem agrees_list {listing : Listing Node} (h : ∀ part ∈ listing.parts, part.Offline) :
    Agrees β ν μ (list ev listing) (list ev' listing) := by
  obtain ⟨hpath, hfilters⟩ := List.forall_mem_cons.1 h
  apply (agrees_evalTarget hev hpath).bind
  intro target
  apply (agrees_listFilter hev hfilters _).bind
  intro filter
  apply (agrees_listChildren target filter).bind
  intro entries
  extract_lets rest rest'
  have hrest : ∀ entries, Agrees β ν μ (rest entries) (rest' entries) := fun entries =>
    (agrees_emitAll _).bind fun _ => .pure _
  cases listing.sort with
  | some key => exact (agrees_sortedBy key entries).bind hrest
  | none => exact hrest entries

theorem agrees_tree {path : Node} {depth : Option Node} (hpath : path.Offline)
    (hdepth : ∀ node ∈ depth.toList, node.Offline) :
    Agrees β ν μ (tree ev path depth) (tree ev' path depth) := by
  apply (agrees_evalTarget hev hpath).bind
  intro target
  extract_lets rest rest'
  have hrest : ∀ depth, Agrees β ν μ (rest depth) (rest' depth) := fun depth =>
    (agrees_treeLines _ _ _).bind fun _ => (agrees_emitAll _).bind fun _ => .pure _
  cases depth with
  | some depth => exact (agrees_evalInt hev (hdepth depth List.mem_cons_self) _).bind hrest
  | none => exact hrest 1

theorem agrees_get (h : node.Offline) : Agrees β ν μ (get ev node) (get ev' node) := by
  apply (agrees_evalPath hev h).bind
  intro target
  refine .ite (fun _ => ?_) fun _ => .ite (fun _ => ?_) fun _ => agrees_showObject target
  · apply (agrees_evalTargets hev h).bind
    intro targets
    exact (agrees_showObjects targets).bind fun _ => .pure _
  · apply (agrees_wildcardTargets target).bind
    intro targets
    exact (agrees_showObjects targets).bind fun _ => .pure _

theorem agrees_getUnit {rack unit : Node} (hrack : rack.Offline) (hunit : unit.Offline) :
    Agrees β ν μ (getUnit ev rack unit) (getUnit ev' rack unit) := by
  apply (agrees_evalTarget hev hrack).bind
  intro rack
  apply (agrees_evalInt hev hunit _).bind
  intro unit
  refine .ite (fun _ => .fail _) fun _ => (agrees_listChildren _ _).bind fun devices => ?_
  exact agrees_foundDevice _ _

theorem agrees_getSlot {rack slot : Node} (hrack : rack.Offline) (hslot : slot.Offline) :
    Agrees β ν μ (getSlot ev rack slot) (getSlot ev' rack slot) := by
  apply (agrees_evalTarget hev hrack).bind
  intro rack
  apply (agrees_evalText hev hslot).bind
  intro slot
  exact (agrees_listChildren _ _).bind fun devices => agrees_foundDevice _ _

theorem agrees_drawable (h : node.Offline) (key : Option String) :
    Agrees β ν μ (drawable ev node key) (drawable ev' node key) := by
  apply (agrees_evalTarget hev h).bind
  intro target
  apply (agrees_onHierarchy _).bind
  intro object
  exact (agrees_isDrawn object).bind fun _ => (agrees_emit _).bind fun _ => .pure _

/-! ### Drafts of objects -/

theorem agrees_sibling (h : node.Offline) (parent : String) :
    Agrees β ν μ (sibling ev node parent) (sibling ev' node parent) :=
  (agrees_pathIn hev h parent).bind fun target => (agrees_requirePath target).bind fun _ => .pure _

theorem agrees_siblings (h : ∀ node ∈ nodes, node.Offline) (parent : String) :
    Agrees β ν μ (siblings ev parent nodes) (siblings ev' parent nodes) := by
  induction nodes with
  | nil => exact .pure _
  | cons node rest ih =>
    obtain ⟨hnode, hrest⟩ := List.forall_mem_cons.1 h
    exact (agrees_sibling hev hnode parent).bind fun _ => (ih hrest).bind fun _ => .pure _

theorem agrees_evalSize (h : node.Offline) (root : String) :
    Agrees β ν μ (evalSize ev node root) (evalSize ev' node root) := by
  apply (hev node h).bind
  intro value
  cases value.vector? with
  | some xs => exact .ite (fun _ => .pure _) fun _ => .fail _
  | none =>
    cases value with
    | str name => exact (agrees_requireTemplate root name).bind fun _ => .pure _
    | _ => exact .fail _

theorem agrees_evalFootprint {position rotation size : Node} (hposition : position.Offline)
    (hrotation : rotation.Offline) (hsize : size.Offline) (root : String) :
    Agrees β ν μ (evalFootprint ev position rotation size root)
      (evalFootprint ev' position rotation size root) := by
  apply (agrees_evalVector hev hposition _ _).bind
  intro position
  apply (agrees_evalFloat hev hrotation _).bind
  intro rotation
  exact (agrees_evalSize hev hsize root).bind fun _ => .pure _

theorem agrees_evalDevice {position size : Node} {side : Option Node} (hposition : position.Offline)
    (hsize : size.Offline) (hside : ∀ node ∈ side.toList, node.Offline) :
    Agrees β ν μ (evalDevice ev position size side) (evalDevice ev' position size side) := by
  apply (hev position hposition).bind
  intro position
  apply (hev size hsize).bind
  intro size
  extract_lets rest rest'
  have hrest : ∀ attributes, Agrees β ν μ (rest attributes) (rest' attributes) := fun attributes =>
    agrees_addChoice hev hside attributes _ _ _
  cases size.int? with
  | some units => exact hrest _
  | none => exact (agrees_requireTemplate _ _).bind fun _ => hrest _

theorem agrees_draft {creation : Creation Node} (h : ∀ part ∈ creation.parts, part.Offline) :
    Agrees β ν μ (draft ev creation) (draft ev' creation) := by
  cases creation with
    simp only [Creation.parts, List.forall_mem_cons, List.forall_mem_append] at h
  | domain path color =>
    obtain ⟨hpath, hcolor, -⟩ := h
    apply (agrees_pathIn hev hpath _).bind
    intro path
    exact (agrees_evalColor hev hcolor).bind fun _ => .pure _
  | site path => exact (agrees_evalPath hev h.1).bind fun _ => .pure _
  | building path position rotation size =>
    obtain ⟨hpath, hposition, hrotation, hsize, -⟩ := h
    apply (agrees_evalPath hev hpath).bind
    intro path
    exact (agrees_evalFootprint hev hposition hrotation hsize _).bind fun _ => .pure _
  | room path position rotation size axis unit =>
    obtain ⟨⟨⟨hpath, hposition, hrotation, hsize, -⟩, haxis⟩, hunit⟩ := h
    apply (agrees_evalPath hev hpath).bind
    intro path
    apply (agrees_evalFootprint hev hposition hrotation hsize _).bind
    intro attributes
    apply (agrees_addChoice hev haxis _ _ _ _).bind
    intro attributes
    exact (agrees_addChoice hev hunit _ _ _ _).bind fun _ => .pure _
  | rack path position rotation size =>
    obtain ⟨hpath, hposition, hrotation, hsize, -⟩ := h
    apply (agrees_evalPath hev hpath).bind
    intro path
    apply (agrees_evalPosition hev hposition).bind
    intro position
    apply (agrees_evalRotation hev hrotation).bind
    intro rotation
    exact (agrees_evalSize hev hsize _).bind fun _ => .pure _
  | device path position size side =>
    obtain ⟨⟨hpath, hposition, hsize, -⟩, hside⟩ := h
    apply (agrees_evalPath hev hpath).bind
    intro path
    exact (agrees_evalDevice hev hposition hsize hside).bind fun _ => .pure _
  | group path children =>
    apply (agrees_evalPath hev h.1).bind
    intro path
    exact (agrees_siblings hev h.2 _).bind fun _ => .pure _
  | corridor path leftRack rightRack temperature =>
    obtain ⟨hpath, hleft, hright, htemperature, -⟩ := h
    apply (agrees_evalPath hev hpath).bind
    intro path
    apply (agrees_sibling hev hleft _).bind
    intro left
    apply (agrees_sibling hev hright _).bind
    intro right
    apply (agrees_evalText hev htemperature).bind
    intro temperature
    exact (agrees_oneOf _ _ _).bind fun _ => .pure _
  | tag slug color =>
    obtain ⟨hslug, hcolor, -⟩ := h
    apply (agrees_evalText hev hslug).bind
    intro slug
    exact (agrees_evalColor hev hcolor).bind fun _ => .pure _
  | orphan path template =>
    obtain ⟨hpath, htemplate, -⟩ := h
    apply (agrees_pathIn hev hpath _).bind
    intro path
    apply (agrees_evalText hev htemplate).bind
    intro template
    exact (agrees_requireTemplate _ template).bind fun _ => .pure _

/-! ### Moving and copying -/

theorem agrees_link {source dest : Node} {slot : Option Node} (hsource : source.Offline)
    (hdest : dest.Offline) (hslot : ∀ node ∈ slot.toList, node.Offline) :
    Agrees β ν μ (link ev source dest slot) (link ev' source dest slot) := by
  apply (agrees_evalTarget hev hsource).bind
  intro source
  apply (agrees_evalTarget hev hdest).bind
  intro dest
  apply (agrees_evalOptionalText hev hslot).bind
  intro slot
  exact (agrees_onHierarchy _).bind fun _ => (agrees_emit _).bind fun _ => .pure _

theorem agrees_copy {source dest : Node} (hsource : source.Offline) (hdest : dest.Offline) :
    Agrees β ν μ (copy ev source dest) (copy ev' source dest) := by
  apply (agrees_evalTarget hev hsource).bind
  intro source
  apply (agrees_evalText hev hdest).bind
  intro dest
  extract_lets collection rest rest'
  refine .ite (fun _ => .fail _) fun _ => ?_
  have hrest : ∀ target, Agrees β ν μ (rest target) (rest' target) := by
    intro target
    refine .ite (fun _ => .fail _) fun _ => (agrees_onHierarchy _).bind fun object => ?_
    extract_lets fields told told'
    have htold : ∀ r, Agrees β ν μ (told r) (told' r) := fun _ => (agrees_emit _).bind fun _ => .pure _
    refine .ite (fun _ => ?_) fun _ => (agrees_onHierarchy _).bind htold
    exact (agrees_onHierarchy _).bind fun _ => htold ()
  exact .ite (fun _ => (agrees_resolve dest).bind hrest) fun _ => (Agrees.pure _).bind hrest

theorem agrees_loadTemplate (h : node.Offline) :
    Agrees β ν μ (loadTemplate ev node) (loadTemplate ev' node) := by
  apply (agrees_evalText hev h).bind
  intro file
  refine agrees_readFile_bind file fun text _ => ?_
  cases Json.read text with
  | error e => exact .fail _
  | ok json =>
    dsimp only
    cases json.object? with
    | none => exact .fail _
    | some template => exact (agrees_onHierarchy _).bind fun _ => (agrees_emit _).bind fun _ => .pure _

/-! ### Telling the viewer -/

theorem agrees_updateTargets (h : node.Offline) :
    Agrees β ν μ (updateTargets ev node) (updateTargets ev' node) := by
  apply (agrees_evalTargets hev h).bind
  intro targets
  match targets with
  | [] => exact .pure _
  | [only] => exact .ite (fun _ => agrees_wildcardTargets only) fun _ => .pure _
  | _ :: _ :: _ => exact .pure _

theorem agrees_unsetPatch {index : Option Node} (h : ∀ node ∈ index.toList, node.Offline)
    (target key : String) :
    Agrees β ν μ (unsetPatch ev target key index) (unsetPatch ev' target key index) := by
  cases index with
  | none => exact .pure _
  | some index =>
    apply (agrees_evalInt hev (h index List.mem_cons_self) _).bind
    intro index
    apply (agrees_onHierarchy _).bind
    intro object
    extract_lets current
    cases attributeItems? current with
    | none => exact .fail _
    | some items => exact .ite (fun _ => .pure _) fun _ => .fail _

variable [Viewer ν] [Viewer μ]

theorem agrees_create {creation : Creation Node} (h : ∀ part ∈ creation.parts, part.Offline) :
    Agrees β ν μ (create ev creation) (create ev' creation) := by
  apply (agrees_draft hev h).bind
  intro draft
  apply (agrees_onHierarchy _).bind
  intro object
  apply (agrees_isDrawn object).bind
  intro drawn
  extract_lets rest rest'
  have hrest : ∀ r, Agrees β ν μ (rest r) (rest' r) := fun _ => (agrees_emit _).bind fun _ => .pure _
  exact .ite (fun _ => (agrees_notify _).bind hrest) fun _ => hrest ()

theorem agrees_update {path : Node} {key : String} {values : List Node} (hpath : path.Offline)
    (hkey : key ∉ Node.shownKeys) (hvalues : ∀ node ∈ values, node.Offline) (sharp : Bool) :
    Agrees β ν μ (update ev path key values sharp) (update ev' path key values sharp) := by
  apply (agrees_evalAll hev hvalues).bind
  intro values
  apply (agrees_updateTargets hev hpath).bind
  intro targets
  apply (agrees_updateEach hkey values sharp targets).bind
  intro objects
  match objects with
  | [] => exact .pure _
  | [object] => exact .pure _
  | _ :: _ :: _ => exact .pure _

theorem agrees_unsetEach {index : Option Node} (h : ∀ node ∈ index.toList, node.Offline) (key : String)
    (targets : List String) :
    Agrees β ν μ (unsetEach ev key index targets) (unsetEach ev' key index targets) := by
  induction targets with
  | nil => exact .pure _
  | cons target rest ih =>
    apply (agrees_unsetPatch hev h target key).bind
    intro patch
    apply (agrees_onHierarchy _).bind
    intro object
    exact (agrees_notifyModified target object).bind fun _ => ih

theorem agrees_unsetAttribute {path : Node} {index : Option Node} (hpath : path.Offline)
    (hindex : ∀ node ∈ index.toList, node.Offline) (key : String) :
    Agrees β ν μ (unsetAttribute ev path key index) (unsetAttribute ev' path key index) := by
  apply (agrees_evalTargets hev hpath).bind
  intro targets
  exact (agrees_unsetEach hev hindex key targets).bind fun _ => .pure _

theorem agrees_delete (h : node.Offline) : Agrees β ν μ (delete ev node) (delete ev' node) := by
  apply (agrees_evalTargets hev h).bind
  intro targets
  exact (agrees_deleteEach targets).bind fun _ => .pure _

theorem agrees_unlink {source : Node} {dest : Option Node} (hsource : source.Offline)
    (hdest : ∀ node ∈ dest.toList, node.Offline) :
    Agrees β ν μ (unlink ev source dest) (unlink ev' source dest) := by
  apply (agrees_evalTarget hev hsource).bind
  intro source
  extract_lets rest rest'
  have hrest : ∀ dest, Agrees β ν μ (rest dest) (rest' dest) := by
    intro dest
    apply (agrees_onHierarchy _).bind
    intro _
    apply (agrees_notify _).bind
    intro _
    exact (agrees_emit _).bind fun _ => .pure _
  cases dest with
  | some dest => exact (agrees_evalTarget hev (hdest dest List.mem_cons_self)).bind fun _ => hrest _
  | none => exact hrest none

end Arguments

end Command

end TwinShell
