import TwinShell.Proofs.Session.Steps

/-!
# Commands that only look

Most commands look around in the hierarchy, print, read files or talk to the viewer. An invariant that does not depend on any of this is stable, and such a command keeps it as soon as the evaluator of its arguments does.
-/

namespace TwinShell

namespace Command

variable {β ν α : Type} [Hierarchy β] {P : Session β ν → Prop}

/-- An invariant that looking, printing, reading files and talking to the viewer do not touch. -/
structure Stable (P : Session β ν → Prop) : Prop where
  output : ∀ s output, P s → P { s with output }
  viewer : ∀ s viewer, P s → P { s with viewer }
  reads : ∀ s reads, P s → P { s with reads }
  getObject : ∀ path, Keeps P (onHierarchy (Hierarchy.getObject path))
  getChildren : ∀ path filter, Keeps P (onHierarchy (Hierarchy.getChildren path filter))

/-- Whether a path exists is asked by getting its object. -/
theorem keeps_exists_of_getObject {path : String} (h : Keeps P (onHierarchy (Hierarchy.getObject path))) :
    Keeps P (onHierarchy (Hierarchy.exists path)) := by
  intro s hs
  have hget := h s hs
  simp only [onHierarchy, Hierarchy.exists] at hget ⊢
  cases h : Hierarchy.getObject path s.hierarchy with
  | ok object state =>
    rw [h] at hget
    exact ⟨hget.1, trivial⟩
  | error e state =>
    rw [h] at hget
    cases e <;> first | exact ⟨hget, trivial⟩ | exact hget

variable (hP : Stable P)
include hP

/-! ### Parts of commands -/

theorem keeps_emit (line : String) : Keeps P (emit line) := fun s hs => ⟨hP.output s _ hs, trivial⟩

theorem keeps_emitAll (lines : List String) : Keeps P (emitAll lines) :=
  Keeps.forM fun line _ => keeps_emit hP line

theorem keeps_onViewer (op : EStateM ViewerError ν α) : Keeps P (onViewer op) := by
  intro s hs
  simp only [onViewer]
  cases op s.viewer with
  | ok a viewer => exact ⟨hP.viewer s _ hs, trivial⟩
  | error e viewer => exact hP.viewer s _ hs

theorem keeps_readFile (path : String) : Keeps P (readFile path) := by
  intro s hs
  simp only [readFile]
  cases s.files.read path with
  | ok text => exact ⟨hP.reads s _ hs, trivial⟩
  | error e => exact hP.reads s _ hs

theorem keeps_exists (path : String) : Keeps P (onHierarchy (Hierarchy.exists path)) :=
  keeps_exists_of_getObject (hP.getObject path)

theorem keeps_pathExists (path : String) : Keeps P (pathExists path) :=
  .ite (fun _ => .pure trivial) fun _ => keeps_exists hP path

theorem keeps_requirePath (path : String) : Keeps P (requirePath path) :=
  (keeps_pathExists hP path).bind fun _ => .ite (fun _ => .fail _) fun _ => .pure trivial

theorem keeps_listChildren (target : String) (filter : Filter) : Keeps P (listChildren target filter) := by
  refine Gives.ite (fun _ => .pure trivial) fun _ => ?_
  exact (hP.getChildren target filter).bind fun _ => .pure trivial

theorem keeps_treeLines (depth : Nat) (target indent : String) :
    Keeps P (treeLines depth target indent) := by
  induction depth generalizing target indent with
  | zero => exact .pure trivial
  | succ depth ih =>
    apply (keeps_listChildren hP target {}).bind
    intro children
    exact keeps_treeChildren ih indent children

theorem keeps_wildcardTargets (target : String) : Keeps P (wildcardTargets target) :=
  (keeps_listChildren hP _ _).bind fun _ => .ite (fun _ => .fail _) fun _ => .pure trivial

theorem keeps_showObject (path : String) : Keeps P (showObject path) :=
  (hP.getObject path).bind fun _ => (keeps_emit hP _).bind fun _ => .pure trivial

theorem keeps_showObjects (paths : List String) : Keeps P (showObjects paths) := by
  induction paths with
  | nil => exact .pure trivial
  | cons path rest ih => exact (keeps_showObject hP path).bind fun _ => ih.bind fun _ => .pure trivial

theorem keeps_foundDevice (device : Option (String × Object)) (missing : String) :
    Keeps P (foundDevice device missing) := by
  simp only [foundDevice]
  split
  · exact (keeps_emit hP _).bind fun _ => .pure trivial
  · exact (keeps_emit hP _).bind fun _ => .pure trivial

theorem keeps_drawnFrom (depth : Int64) (target : String) : Keeps P (drawnFrom depth target) := by
  apply (hP.getObject target).bind
  intro object
  refine .ite (fun _ => ?_) fun _ => .pure trivial
  exact (hP.getChildren target _).bind fun _ => .pure trivial

theorem keeps_drawnFromEach (depth : Int64) (targets : List String) :
    Keeps P (drawnFromEach depth targets) := by
  induction targets with
  | nil => exact .pure trivial
  | cons target rest ih =>
    exact (keeps_drawnFrom hP depth target).bind fun _ => ih.bind fun _ => .pure trivial

theorem keeps_printSelection : Keeps P printSelection :=
  Keeps.getEnv.bind fun _ => (keeps_emitAll hP _).bind fun _ => .pure trivial

/-! ### Commands -/

section Nested

variable {ev : Node → Command β ν Value} (hev : ∀ node, Keeps P (ev node))
include hev

theorem keeps_list (listing : Listing Node) : Keeps P (list ev listing) := by
  apply (keeps_evalTarget hev _).bind
  intro target
  apply (keeps_listFilter hev _ _).bind
  intro filter
  apply (keeps_listChildren hP target filter).bind
  intro entries
  extract_lets rest
  have hrest : ∀ entries, Keeps P (rest entries) := fun entries =>
    (keeps_emitAll hP _).bind fun _ => .pure trivial
  split
  · exact (keeps_sortedBy _ _).bind fun _ => hrest _
  · exact hrest _

theorem keeps_tree (path : Node) (depth : Option Node) : Keeps P (tree ev path depth) := by
  apply (keeps_evalTarget hev path).bind
  intro target
  extract_lets rest
  have hrest : ∀ depth, Keeps P (rest depth) := fun depth =>
    (keeps_treeLines hP _ _ _).bind fun _ => (keeps_emitAll hP _).bind fun _ => .pure trivial
  split
  · exact (keeps_evalInt hev _ _).bind fun _ => hrest _
  · exact hrest _

theorem keeps_get (path : Node) : Keeps P (get ev path) := by
  apply (keeps_evalPath hev path).bind
  intro target
  refine .ite (fun _ => ?_) fun _ => .ite (fun _ => ?_) ?_
  · apply (keeps_evalTargets hev path).bind
    intro targets
    exact (keeps_showObjects hP targets).bind fun _ => .pure trivial
  · apply (keeps_wildcardTargets hP target).bind
    intro targets
    exact (keeps_showObjects hP targets).bind fun _ => .pure trivial
  · exact fun _ => keeps_showObject hP target

theorem keeps_getUnit (rack unit : Node) : Keeps P (getUnit ev rack unit) := by
  apply (keeps_evalTarget hev rack).bind
  intro rack
  apply (keeps_evalInt hev unit _).bind
  intro unit
  refine .ite (fun _ => .fail _) fun _ => (keeps_listChildren hP _ _).bind fun devices => ?_
  exact keeps_foundDevice hP _ _

theorem keeps_getSlot (rack slot : Node) : Keeps P (getSlot ev rack slot) := by
  apply (keeps_evalTarget hev rack).bind
  intro rack
  apply (keeps_evalText hev slot).bind
  intro slot
  exact (keeps_listChildren hP _ _).bind fun devices => keeps_foundDevice hP _ _

theorem keeps_drawable (path : Node) (key : Option String) : Keeps P (drawable ev path key) := by
  apply (keeps_evalTarget hev path).bind
  intro target
  apply (hP.getObject target).bind
  intro object
  exact (keeps_isDrawn object).bind fun _ => (keeps_emit hP _).bind fun _ => .pure trivial

theorem keeps_uiMessage (command : UiCommand Node) : Keeps P (uiMessage ev command) := by
  cases command with
  | delay seconds => exact (keeps_evalFloat hev _ _).bind fun _ => .pure trivial
  | toggle feature enable => exact (keeps_evalBool hev _ _).bind fun _ => .pure trivial
  | highlight path =>
    apply (keeps_evalTarget hev path).bind
    intro target
    exact (keeps_requirePath hP target).bind fun _ => .pure trivial
  | clearCache => exact .pure trivial

/-! ### Drafts of objects -/

theorem keeps_sibling (node : Node) (parent : String) : Keeps P (sibling ev node parent) :=
  (keeps_pathIn hev node parent).bind fun target =>
    (keeps_requirePath hP target).bind fun _ => .pure trivial

theorem keeps_siblings (parent : String) (nodes : List Node) : Keeps P (siblings ev parent nodes) := by
  induction nodes with
  | nil => exact .pure trivial
  | cons node rest ih =>
    exact (keeps_sibling hP hev node parent).bind fun _ => ih.bind fun _ => .pure trivial

omit hev in
theorem keeps_requireTemplate (root name : String) : Keeps P (requireTemplate root name) :=
  (keeps_pathExists hP _).bind fun _ => .ite (fun _ => .fail _) fun _ => .pure trivial

theorem keeps_evalSize (node : Node) (root : String) : Keeps P (evalSize ev node root) := by
  apply (hev node).bind
  intro value
  split
  · exact .ite (fun _ => .pure trivial) fun _ => .fail _
  · exact (keeps_requireTemplate hP root _).bind fun _ => .pure trivial
  · exact .fail _

theorem keeps_evalFootprint (position rotation size : Node) (root : String) :
    Keeps P (evalFootprint ev position rotation size root) := by
  apply (keeps_evalVector hev _ _ _).bind
  intro position
  apply (keeps_evalFloat hev _ _).bind
  intro rotation
  exact (keeps_evalSize hP hev size root).bind fun _ => .pure trivial

theorem keeps_evalDevice (position size : Node) (side : Option Node) :
    Keeps P (evalDevice ev position size side) := by
  apply (hev position).bind
  intro position
  apply (hev size).bind
  intro size
  extract_lets rest
  have hrest : ∀ attributes, Keeps P (rest attributes) := fun attributes =>
    keeps_addChoice hev attributes _ _ _ side
  split
  · exact hrest _
  · exact (keeps_requireTemplate hP _ _).bind fun _ => hrest _

theorem keeps_draft (creation : Creation Node) : Keeps P (draft ev creation) := by
  cases creation with
  | domain path color =>
    apply (keeps_pathIn hev path _).bind
    intro path
    exact (keeps_evalColor hev color).bind fun _ => .pure trivial
  | site path => exact (keeps_evalPath hev path).bind fun _ => .pure trivial
  | building path position rotation size =>
    apply (keeps_evalPath hev path).bind
    intro path
    exact (keeps_evalFootprint hP hev _ _ _ _).bind fun _ => .pure trivial
  | room path position rotation size axis unit =>
    apply (keeps_evalPath hev path).bind
    intro path
    apply (keeps_evalFootprint hP hev _ _ _ _).bind
    intro attributes
    apply (keeps_addChoice hev _ _ _ _ axis).bind
    intro attributes
    exact (keeps_addChoice hev _ _ _ _ unit).bind fun _ => .pure trivial
  | rack path position rotation size =>
    apply (keeps_evalPath hev path).bind
    intro path
    apply (keeps_evalPosition hev position).bind
    intro position
    apply (keeps_evalRotation hev rotation).bind
    intro rotation
    exact (keeps_evalSize hP hev size _).bind fun _ => .pure trivial
  | device path position size side =>
    apply (keeps_evalPath hev path).bind
    intro path
    exact (keeps_evalDevice hP hev position size side).bind fun _ => .pure trivial
  | group path children =>
    apply (keeps_evalPath hev path).bind
    intro path
    exact (keeps_siblings hP hev _ children).bind fun _ => .pure trivial
  | corridor path leftRack rightRack temperature =>
    apply (keeps_evalPath hev path).bind
    intro path
    apply (keeps_sibling hP hev leftRack _).bind
    intro left
    apply (keeps_sibling hP hev rightRack _).bind
    intro right
    apply (keeps_evalText hev temperature).bind
    intro temperature
    exact (keeps_oneOf _ _ _).bind fun _ => .pure trivial
  | tag slug color =>
    apply (keeps_evalText hev slug).bind
    intro slug
    exact (keeps_evalColor hev color).bind fun _ => .pure trivial
  | orphan path template =>
    apply (keeps_pathIn hev path _).bind
    intro path
    apply (keeps_evalText hev template).bind
    intro template
    exact (keeps_requireTemplate hP _ template).bind fun _ => .pure trivial

end Nested

/-! ### Patches of objects -/

theorem keeps_addNamed (target key name : String) (entry : Json) :
    Keeps P (addNamed target key name entry) := by
  apply (hP.getObject target).bind
  intro object
  refine .ite (fun _ => ?_) fun _ => .pure trivial
  exact (keeps_emit hP _).bind fun _ => .pure trivial

theorem keeps_removeNamed (target key name : String) : Keeps P (removeNamed target key name) :=
  (hP.getObject target).bind fun _ => .ite (fun _ => .pure trivial) fun _ => .fail _

theorem keeps_addTag (target slug : String) : Keeps P (addTag target slug) := by
  apply (hP.getObject target).bind
  intro object
  apply (keeps_pathExists hP _).bind
  intro found
  exact .ite (fun _ => .fail _) fun _ => .pure trivial

theorem keeps_removeTag (target slug : String) : Keeps P (removeTag target slug) :=
  (hP.getObject target).bind fun _ => .ite (fun _ => .pure trivial) fun _ => .fail _

theorem keeps_labelText (target value : String) (sharp : Bool) :
    Keeps P (labelText target value sharp) := by
  refine .ite (fun _ => (hP.getObject target).bind fun object => ?_) fun _ => .pure trivial
  split
  · exact .pure trivial
  · exact .fail _

section Nested

variable {ev : Node → Command β ν Value} (hev : ∀ node, Keeps P (ev node))
include hev

theorem keeps_updateTargets (path : Node) : Keeps P (updateTargets ev path) := by
  apply (keeps_evalTargets hev path).bind
  intro targets
  split
  · exact .ite (fun _ => keeps_wildcardTargets hP _) fun _ => .pure trivial
  · exact .pure trivial

theorem keeps_unsetPatch (target key : String) (index : Option Node) :
    Keeps P (unsetPatch ev target key index) := by
  cases index with
  | none => exact .pure trivial
  | some index =>
    apply (keeps_evalInt hev index _).bind
    intro index
    apply (hP.getObject target).bind
    intro object
    extract_lets current
    split
    · exact .fail _
    · exact .ite (fun _ => .pure trivial) fun _ => .fail _

end Nested

/-! ### Talking to the viewer -/

variable [Viewer ν]

theorem keeps_send (message : Json) : Keeps P (send message) := keeps_onViewer hP _

theorem keeps_notify (message : Json) : Keeps P (notify message) := by
  intro s hs
  by_cases htold : s.env.settings.updates && Viewer.isConnected s.viewer
  · simp only [notify, htold, if_true]
    cases Viewer.send message s.viewer with
    | ok a viewer => exact ⟨hP.viewer s _ hs, trivial⟩
    | error e viewer => exact ⟨hP.viewer s _ hs, trivial⟩
  · simp only [notify, htold]
    exact ⟨hs, trivial⟩

variable (P) in
/-- The patches of an object keep an invariant, each by itself. -/
structure PatchParts (target : String) : Prop where
  addNamed : ∀ key name entry, Keeps P (addNamed target key name entry)
  removeNamed : ∀ key name, Keeps P (removeNamed target key name)
  addTag : ∀ slug, Keeps P (addTag target slug)
  removeTag : ∀ slug, Keeps P (removeTag target slug)
  labelText : ∀ value sharp, Keeps P (labelText target value sharp)
  sendInteract : ∀ param value, Keeps P (sendInteract target param value)

theorem keeps_sendInteract (target param : String) (value : Json) :
    Keeps P (sendInteract target param value) :=
  keeps_requireViewer.bind fun _ => keeps_send hP _

omit hP in
/-- Only a domain that is set for everything below is more than looking at the object. -/
theorem keeps_updatePatch_of_parts {target key : String} {values : List Value} (sharp : Bool)
    (h : PatchParts P target)
    (hbelow : key = "domain" → ∀ domain, domainArguments values = .ok (domain, true) →
      Keeps P (setDomainBelow target (.str domain))) :
    Keeps P (updatePatch target key values sharp) := by
  have hsettle {α : Type} (result : Except EvalError α) := Keeps.settle (P := P) result
  unfold updatePatch
  refine .ite (fun _ => (hsettle _).bind fun _ => .pure trivial) fun _ => ?_
  -- One case for each attribute with a rule of its own, and the last one for all others.
  split
  · exact .fail _
  · exact .fail _
  · exact .fail _
  · exact (hsettle _).bind fun _ => .pure trivial
  · exact (hsettle _).bind fun _ => (h.addNamed _ _ _).bind fun _ => .pure trivial
  · exact (hsettle _).bind fun _ => (h.addNamed _ _ _).bind fun _ => .pure trivial
  · exact (hsettle _).bind fun _ => (h.removeNamed _ _).bind fun _ => .pure trivial
  · exact (hsettle _).bind fun _ => (h.removeNamed _ _).bind fun _ => .pure trivial
  · apply (hsettle _).bind
    intro value
    apply (h.labelText _ _).bind
    intro label
    exact (h.sendInteract _ _).bind fun _ => .pure trivial
  · exact (hsettle _).bind fun _ => (h.sendInteract _ _).bind fun _ => .pure trivial
  · apply (hsettle _).bind
    intro color
    refine .ite (fun _ => ?_) fun _ => .fail _
    exact (h.sendInteract _ _).bind fun _ => .pure trivial
  · exact (hsettle _).bind fun _ => (h.addTag _).bind fun _ => .pure trivial
  · exact (hsettle _).bind fun _ => (h.removeTag _).bind fun _ => .pure trivial
  · exact (hsettle _).bind fun _ => .pure trivial
  · apply (Gives.settle fun _ harguments => harguments).bind
    intro arguments harguments
    refine .ite (fun hrecursive => ?_) fun _ => .pure trivial
    have hset := hbelow rfl arguments.1 (hrecursive ▸ harguments)
    exact hset.bind fun _ => .pure trivial
  · apply (hsettle _).bind
    intro value
    refine .ite (fun _ => ?_) fun _ => .pure trivial
    split
    · exact (h.sendInteract _ _).bind fun _ => .pure trivial
    · exact .fail _

theorem keeps_updatePatch {target key : String} {values : List Value} (sharp : Bool)
    (hbelow : key = "domain" → ∀ domain, domainArguments values = .ok (domain, true) →
      Keeps P (setDomainBelow target (.str domain))) :
    Keeps P (updatePatch target key values sharp) :=
  keeps_updatePatch_of_parts sharp
    { addNamed := keeps_addNamed hP target
      removeNamed := keeps_removeNamed hP target
      addTag := keeps_addTag hP target
      removeTag := keeps_removeTag hP target
      labelText := keeps_labelText hP target
      sendInteract := keeps_sendInteract hP target } hbelow

theorem keeps_notifyModified (target : String) (object : Object) :
    Keeps P (notifyModified target object) := by
  apply (keeps_isDrawn object).bind
  intro drawn
  refine .ite (fun _ => ?_) fun _ => .pure trivial
  exact keeps_notify hP _

theorem keeps_drawEach (objects : List (String × Object)) : Keeps P (drawEach objects) := by
  induction objects with
  | nil => exact .pure trivial
  | cons object rest ih => exact (keeps_send hP _).bind fun _ => ih

theorem keeps_disconnect : Keeps P disconnect := by
  refine Keeps.bind (fun s hs => ⟨hP.viewer s _ hs, trivial⟩) fun _ => ?_
  exact (keeps_emit hP _).bind fun _ => .pure trivial

theorem keeps_showPeers : Keeps P showPeers :=
  Keeps.get.bind fun _ => (keeps_emitAll hP _).bind fun _ => .pure trivial

section Nested

variable {ev : Node → Command β ν Value} (hev : ∀ node, Keeps P (ev node))
include hev

theorem keeps_draw (path : Node) (depth : Option Node) (force : Bool) :
    Keeps P (draw ev path depth force) := by
  apply keeps_requireViewer.bind
  intro _
  extract_lets rest
  have hrest : ∀ depth, Keeps P (rest depth) := by
    intro depth
    apply (keeps_evalTargets hev path).bind
    intro targets
    apply (keeps_drawnFromEach hP depth targets).bind
    intro objects
    apply Keeps.getEnv.bind
    intro env
    exact .ite (fun _ => .fail _) fun _ => (keeps_drawEach hP _).bind fun _ => .pure trivial
  split
  · exact (keeps_evalInt hev _ _).bind fun _ => hrest _
  · exact hrest _

theorem keeps_undraw (path : Option Node) : Keeps P (undraw ev path) := by
  apply keeps_requireViewer.bind
  intro _
  extract_lets rest
  have hrest : ∀ ids, Keeps P (rest ids) := fun ids =>
    (Keeps.forM fun id _ => keeps_send hP _).bind fun _ => .pure trivial
  split
  · exact (keeps_evalTargets hev _).bind fun _ => hrest _
  · exact hrest _

theorem keeps_ui (command : UiCommand Node) : Keeps P (ui ev command) := by
  apply keeps_requireViewer.bind
  intro _
  apply (keeps_uiMessage hP hev command).bind
  intro message
  exact (keeps_send hP message).bind fun _ => .pure trivial

theorem keeps_camera (command : CameraCommand Node) : Keeps P (camera ev command) := by
  apply keeps_requireViewer.bind
  intro _
  apply (keeps_cameraMessage hev command).bind
  intro message
  exact (keeps_send hP message).bind fun _ => .pure trivial

theorem keeps_connect (address : Option Node) : Keeps P (connect ev address) := by
  unfold connect
  extract_lets rest
  have hrest : ∀ address, Keeps P (rest address) := fun address =>
    (keeps_onViewer hP _).bind fun _ => (keeps_emit hP _).bind fun _ => .pure trivial
  split
  · exact (keeps_evalText hev _).bind fun _ => hrest _
  · exact Keeps.get.bind fun _ => hrest _

end Nested

end Command

end TwinShell
