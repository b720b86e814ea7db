import TwinShell.Proofs.Hierarchy.Watched
import TwinShell.Proofs.Session.Staying
import TwinShell.Proofs.Sorting.Piece

/-!
# What commands ask about

A session over a watched hierarchy is rooted if it is at absolute places and has asked about absolute paths only. A path of a command is resolved to an absolute path or to the sign for the selection. The commands of this module ask about what they are given only if it is absolute, or turn the sign into the selected paths before; so they keep a session rooted if the evaluator of their arguments does. What asks nothing of the hierarchy does the same over any other, also over one that never changes, and is known to keep a session rooted from there.
-/

namespace TwinShell

variable {β ν α : Type}

/-- A session at absolute places that has asked about absolute paths only. -/
structure Session.Rooted (s : Session (Watched β) ν) : Prop where
  asked : s.hierarchy.Rooted
  current : Path.Absolute s.env.currentPath
  previous : Path.Absolute s.env.previousPath
  selection : ∀ path ∈ s.env.selection, Path.Absolute path

/-- A hierarchy that answers nothing and never changes. -/
@[reducible]
def Hierarchy.mute (β : Type) : Hierarchy β where
  describe _ := ""
  getObject path := throw (.unsupported path)
  getChildren path _ := throw (.unsupported path)
  createObject path _ _ := throw (.unsupported path)
  updateObject path _ := throw (.unsupported path)
  deleteObject path := throw (.unsupported path)
  linkObject path _ _ := throw (.unsupported path)
  unlinkObject path _ := throw (.unsupported path)
  createTemplate _ := throw .noSlug

namespace Command

open Session (Rooted)

/-! ### Asking nothing -/

theorem rooted_steady : @Steady (Watched β) ν (.mute _) Rooted :=
  letI := Hierarchy.mute (Watched β)
  { output := fun _ _ hs => ⟨hs.asked, hs.current, hs.previous, hs.selection⟩
    viewer := fun _ _ hs => ⟨hs.asked, hs.current, hs.previous, hs.selection⟩
    reads := fun _ _ hs => ⟨hs.asked, hs.current, hs.previous, hs.selection⟩
    getObject := fun _ _ hs => hs
    getChildren := fun _ _ _ hs => hs
    updateObject := fun _ _ _ hs => hs
    settings := fun _ _ hs => ⟨hs.asked, hs.current, hs.previous, hs.selection⟩
    exitRequested := fun _ _ hs => ⟨hs.asked, hs.current, hs.previous, hs.selection⟩
    scriptDepth := fun _ _ hs => ⟨hs.asked, hs.current, hs.previous, hs.selection⟩ }

theorem rooted_stable : @Stable (Watched β) ν (.mute _) Rooted :=
  letI := Hierarchy.mute (Watched β)
  rooted_steady.toStable

theorem rooted_emit (line : String) : Keeps Rooted (emit line : Command (Watched β) ν Unit) :=
  @keeps_emit _ _ (.mute _) _ rooted_stable line

theorem rooted_emitAll (lines : List String) :
    Keeps Rooted (emitAll lines : Command (Watched β) ν Unit) :=
  @keeps_emitAll _ _ (.mute _) _ rooted_stable lines

theorem rooted_foundDevice (device : Option (String × Object)) (missing : String) :
    Keeps Rooted (foundDevice device missing : Command (Watched β) ν Value) :=
  @keeps_foundDevice _ _ (.mute _) _ rooted_stable device missing

theorem rooted_readFile (path : String) : Keeps Rooted (readFile path : Command (Watched β) ν String) :=
  @keeps_readFile _ _ (.mute _) _ rooted_stable path

section Telling

variable [Viewer ν]

theorem rooted_send (message : Json) : Keeps Rooted (send message : Command (Watched β) ν Unit) :=
  @keeps_send _ _ (.mute _) _ rooted_stable _ message

theorem rooted_notify (message : Json) : Keeps Rooted (notify message : Command (Watched β) ν Unit) :=
  @keeps_notify _ _ (.mute _) _ rooted_stable _ message

theorem rooted_notifyModified (target : String) (object : Object) :
    Keeps Rooted (notifyModified target object : Command (Watched β) ν Unit) :=
  @keeps_notifyModified _ _ (.mute _) _ rooted_stable _ target object

theorem rooted_sendInteract (target param : String) (value : Json) :
    Keeps Rooted (sendInteract target param value : Command (Watched β) ν Unit) :=
  @keeps_sendInteract _ _ (.mute _) _ rooted_stable _ target param value

theorem rooted_drawEach (objects : List (String × Object)) :
    Keeps Rooted (drawEach objects : Command (Watched β) ν Unit) :=
  @keeps_drawEach _ _ (.mute _) _ rooted_stable _ objects

end Telling

/-! ### Asking about absolute paths -/

theorem gives_asking {paths : List String} (hpaths : ∀ path ∈ paths, Path.Absolute path)
    {op : EStateM HierarchyError β α} {Q : α → Prop} (hop : Returns op Q) :
    Gives Rooted (onHierarchy (Watched.asking paths op) : Command (Watched β) ν α) Q := by
  intro s hs
  have hasked : ∀ path ∈ paths ++ s.hierarchy.asked, Path.Absolute path :=
    List.forall_mem_append.2 ⟨hpaths, hs.asked⟩
  have hresult := hop s.hierarchy.inner
  simp only [onHierarchy, Watched.asking]
  cases h : op s.hierarchy.inner with
  | ok a inner =>
    rw [h] at hresult
    exact ⟨⟨hasked, hs.current, hs.previous, hs.selection⟩, hresult⟩
  | error e inner => exact ⟨hasked, hs.current, hs.previous, hs.selection⟩

theorem rooted_asking {paths : List String} (hpaths : ∀ path ∈ paths, Path.Absolute path)
    (op : EStateM HierarchyError β α) :
    Keeps Rooted (onHierarchy (Watched.asking paths op) : Command (Watched β) ν α) := by
  refine gives_asking hpaths fun state => ?_
  split <;> trivial

variable [Hierarchy β]

section Operations

variable {path : String} (hpath : Path.Absolute path)
include hpath

theorem rooted_getObject :
    Keeps Rooted (onHierarchy (Hierarchy.getObject path) : Command (Watched β) ν Object) :=
  rooted_asking (List.forall_mem_singleton.2 hpath) _

theorem rooted_updateObject (patch : Object) :
    Keeps Rooted (onHierarchy (Hierarchy.updateObject path patch) : Command (Watched β) ν Object) :=
  rooted_asking (List.forall_mem_singleton.2 hpath) _

theorem rooted_createObject (kind : Kind) (fields : Object) :
    Keeps Rooted (onHierarchy (Hierarchy.createObject path kind fields) : Command (Watched β) ν Object) :=
  rooted_asking (List.forall_mem_singleton.2 hpath) _

theorem rooted_pathExists : Keeps Rooted (pathExists path : Command (Watched β) ν Bool) :=
  .ite (fun _ => .pure trivial) fun _ => keeps_exists_of_getObject (rooted_getObject hpath)

theorem rooted_requirePath : Keeps Rooted (requirePath path : Command (Watched β) ν Unit) :=
  (rooted_pathExists hpath).bind fun _ => .ite (fun _ => .fail _) fun _ => .pure trivial

theorem gives_getChildren [Hierarchy.ListsAbsolute β] (filter : Filter) :
    Gives Rooted (onHierarchy (Hierarchy.getChildren path filter) :
      Command (Watched β) ν (List (String × Object))) AllAbsolute :=
  gives_asking (List.forall_mem_singleton.2 hpath)
    (Hierarchy.ListsAbsolute.returns_getChildren hpath filter)

end Operations

/-! ### Paths of commands -/

/-- What a path of a command can mean: the selection, or an absolute path. -/
def Means (path : String) : Prop := Path.Absolute path ∨ path = Path.selection

omit [Hierarchy β] in
theorem gives_places : Gives Rooted (getEnv : Command (Watched β) ν Environment) fun env =>
    Path.Absolute env.previousPath ∧ ∀ path ∈ env.selection, Path.Absolute path :=
  fun _ hs => ⟨hs, hs.previous, hs.selection⟩

omit [Hierarchy β] in
theorem gives_resolve_of_ne {raw : String} (hraw : raw ≠ Path.selection) :
    Gives Rooted (resolve raw : Command (Watched β) ν String) Path.Absolute :=
  gives_places.bind fun _ henv => .pure (Path.absolute_resolve henv.1 hraw)

omit [Hierarchy β] in
theorem gives_resolve_means (raw : String) :
    Gives Rooted (resolve raw : Command (Watched β) ν String) Means := by
  by_cases hraw : raw = Path.selection
  · rw [hraw]
    exact gives_places.bind fun _ _ => .pure (.inr rfl)
  · exact (gives_resolve_of_ne hraw).imp fun _ => .inl

section Arguments

variable {ev : Node → Command (Watched β) ν Value} (hev : ∀ node, Keeps Rooted (ev node))
include hev
omit [Hierarchy β]

theorem means_evalPath (node : Node) : Gives Rooted (evalPath ev node) Means :=
  (keeps_evalRawPath hev node).bind fun raw => gives_resolve_means raw

theorem means_evalPaths (nodes : List Node) :
    Gives Rooted (evalPaths ev nodes) fun paths => ∀ path ∈ paths, Means path := by
  induction nodes with
  | nil => exact .pure nofun
  | cons node rest ih =>
    apply (means_evalPath hev node).bind
    intro path hpath
    apply ih.bind
    intro paths hpaths
    exact .pure (List.forall_mem_cons.2 ⟨hpath, hpaths⟩)

theorem absolute_evalTargets (node : Node) :
    Gives Rooted (evalTargets ev node) fun paths => ∀ path ∈ paths, Path.Absolute path := by
  apply (means_evalPath hev node).bind
  intro target htarget
  refine .ite (fun hne => .pure ?_) fun _ => ?_
  · exact List.forall_mem_singleton.2 (htarget.resolve_right hne)
  · apply gives_places.bind
    intro env henv
    exact .ite (fun _ => .fail _) fun _ => .pure henv.2

theorem absolute_evalTarget (node : Node) : Gives Rooted (evalTarget ev node) Path.Absolute := by
  apply (absolute_evalTargets hev node).bind
  intro targets htargets
  split
  · exact .pure (htargets _ List.mem_cons_self)
  · exact .fail _
  · exact .fail _

theorem absolute_pathIn (node : Node) (root : String) :
    Gives Rooted (pathIn ev node root) Path.Absolute := by
  apply (keeps_evalRawPath hev node).bind
  intro raw
  refine .ite (fun hslash => gives_resolve_of_ne ?_) fun _ => .pure (Path.absolute_join root raw)
  rintro rfl
  exact absurd hslash (by decide)

end Arguments

/-! ### Looking around -/

section Looking

variable [Hierarchy.ListsAbsolute β]

theorem gives_listChildren {target : String} (htarget : Path.Absolute target) (filter : Filter) :
    Gives Rooted (listChildren target filter : Command (Watched β) ν (List (String × Object)))
      AllAbsolute := by
  unfold listChildren
  extract_lets namespaces
  have hnamespaces : AllAbsolute namespaces := by
    intro child hchild
    simp only [namespaces] at hchild
    split at hchild
    · obtain ⟨path, hpath, rfl⟩ := List.mem_map.1 hchild
      exact Path.absolute_of_isNamespace (Path.isNamespace_iff.2 (List.mem_filter.1 hpath).1)
    · cases hchild
  clear_value namespaces
  have hrest : ∀ children, AllAbsolute children → Gives Rooted
      (Pure.pure (Sorting.insertionSort (fun a b => a.1 < b.1) (namespaces ++ children)) :
        Command (Watched β) ν (List (String × Object))) AllAbsolute := by
    intro children hchildren
    refine .pure fun child hchild => ?_
    exact hnamespaces.append hchildren child ((Sorting.insertionSort_perm _ _).mem_iff.1 hchild)
  refine .ite (fun _ => ?_) fun _ => ?_
  · exact Gives.bind (.pure (Q := AllAbsolute) (List.forall_mem_nil _)) hrest
  · exact (gives_getChildren htarget filter).bind hrest

omit [Hierarchy β] [Hierarchy.ListsAbsolute β] in
theorem rooted_treeChildren {below : String → String → Command (Watched β) ν (List String)}
    (hbelow : ∀ child indent, Path.Absolute child → Keeps Rooted (below child indent)) (indent : String)
    {children : List (String × Object)} (hchildren : AllAbsolute children) :
    Keeps Rooted (treeChildren below indent children) := by
  induction children with
  | nil => exact .pure trivial
  | cons child rest ih =>
    obtain ⟨hchild, hrest⟩ := List.forall_mem_cons.1 hchildren
    exact (hbelow _ _ hchild).bind fun _ => (ih hrest).bind fun _ => .pure trivial

theorem rooted_treeLines (depth : Nat) {target : String} (htarget : Path.Absolute target)
    (indent : String) : Keeps Rooted (treeLines depth target indent : Command (Watched β) ν _) := by
  induction depth generalizing target indent with
  | zero => exact .pure trivial
  | succ depth ih =>
    apply (gives_listChildren htarget {}).bind
    intro children hchildren
    exact rooted_treeChildren (fun _ indent hchild => ih hchild indent) indent hchildren

theorem gives_wildcardTargets {target : String} (htarget : Path.Absolute target) :
    Gives Rooted (wildcardTargets target : Command (Watched β) ν (List String)) fun paths =>
      ∀ path ∈ paths, Path.Absolute path := by
  apply (gives_listChildren (Path.absolute_parent (.inl htarget)) {}).bind
  intro children hchildren
  refine .ite (fun _ => .fail _) fun _ => .pure fun path hpath => ?_
  obtain ⟨child, hchild, rfl⟩ := List.mem_map.1 (List.mem_filter.1 hpath).1
  exact hchildren child hchild

theorem rooted_drawnFrom (depth : Int64) {target : String} (htarget : Path.Absolute target) :
    Keeps Rooted (drawnFrom depth target : Command (Watched β) ν (List (String × Object))) := by
  apply (rooted_getObject htarget).bind
  intro object
  refine .ite (fun _ => ?_) fun _ => .pure trivial
  exact (gives_getChildren htarget _).keeps.bind fun _ => .pure trivial

theorem rooted_drawnFromEach (depth : Int64) {targets : List String}
    (htargets : ∀ path ∈ targets, Path.Absolute path) :
    Keeps Rooted (drawnFromEach depth targets : Command (Watched β) ν (List (String × Object))) := by
  induction targets with
  | nil => exact .pure trivial
  | cons target rest ih =>
    obtain ⟨htarget, hrest⟩ := List.forall_mem_cons.1 htargets
    exact (rooted_drawnFrom depth htarget).bind fun _ => (ih hrest).bind fun _ => .pure trivial

theorem rooted_setDomainBelow {target : String} (htarget : Path.Absolute target) (domain : Json) :
    Keeps Rooted (setDomainBelow target domain : Command (Watched β) ν Unit) := by
  apply (gives_getChildren htarget _).bind
  intro children hchildren
  refine Keeps.forM fun child hchild => ?_
  exact (rooted_updateObject (hchildren child hchild) _).bind fun _ => .pure trivial

end Looking

theorem rooted_showObject {path : String} (hpath : Path.Absolute path) :
    Keeps Rooted (showObject path : Command (Watched β) ν Value) :=
  (rooted_getObject hpath).bind fun _ => (rooted_emit _).bind fun _ => .pure trivial

theorem rooted_showObjects {paths : List String} (hpaths : ∀ path ∈ paths, Path.Absolute path) :
    Keeps Rooted (showObjects paths : Command (Watched β) ν (List Value)) := by
  induction paths with
  | nil => exact .pure trivial
  | cons path rest ih =>
    obtain ⟨hpath, hrest⟩ := List.forall_mem_cons.1 hpaths
    exact (rooted_showObject hpath).bind fun _ => (ih hrest).bind fun _ => .pure trivial

theorem rooted_requireTemplate (root name : String) :
    Keeps Rooted (requireTemplate root name : Command (Watched β) ν Unit) := by
  apply (rooted_pathExists (Path.absolute_join root name)).bind
  intro found
  exact .ite (fun _ => .fail _) fun _ => .pure trivial

section Arguments

variable {ev : Node → Command (Watched β) ν Value} (hev : ∀ node, Keeps Rooted (ev node))
include hev

section Listing

variable [Hierarchy.ListsAbsolute β]

theorem rooted_list (listing : Listing Node) : Keeps Rooted (list ev listing) := by
  apply (absolute_evalTarget hev _).bind
  intro target htarget
  apply (keeps_listFilter hev _ _).bind
  intro filter
  apply (gives_listChildren htarget filter).keeps.bind
  intro entries
  extract_lets rest
  have hrest : ∀ entries, Keeps Rooted (rest entries) := fun entries =>
    (rooted_emitAll _).bind fun _ => .pure trivial
  split
  · exact (keeps_sortedBy _ _).bind fun _ => hrest _
  · exact hrest _

theorem rooted_tree (path : Node) (depth : Option Node) : Keeps Rooted (tree ev path depth) := by
  apply (absolute_evalTarget hev path).bind
  intro target htarget
  extract_lets rest
  have hrest : ∀ depth, Keeps Rooted (rest depth) := fun depth =>
    (rooted_treeLines _ htarget _).bind fun _ => (rooted_emitAll _).bind fun _ => .pure trivial
  split
  · exact (keeps_evalInt hev _ _).bind fun _ => hrest _
  · exact hrest _

theorem rooted_get (path : Node) : Keeps Rooted (get ev path) := by
  apply (means_evalPath hev path).bind
  intro target htarget
  refine .ite (fun _ => ?_) fun hne => ?_
  · apply (absolute_evalTargets hev path).bind
    intro targets htargets
    exact (rooted_showObjects htargets).bind fun _ => .pure trivial
  · have hroot : Path.Absolute target := htarget.resolve_right hne
    refine .ite (fun _ => ?_) fun _ => rooted_showObject hroot
    apply (gives_wildcardTargets hroot).bind
    intro targets htargets
    exact (rooted_showObjects htargets).bind fun _ => .pure trivial

theorem rooted_getUnit (rack unit : Node) : Keeps Rooted (getUnit ev rack unit) := by
  apply (absolute_evalTarget hev rack).bind
  intro rack hrack
  apply (keeps_evalInt hev unit _).bind
  intro unit
  refine .ite (fun _ => .fail _) fun _ => ?_
  exact (gives_listChildren hrack _).keeps.bind fun _ => rooted_foundDevice _ _

theorem rooted_getSlot (rack slot : Node) : Keeps Rooted (getSlot ev rack slot) := by
  apply (absolute_evalTarget hev rack).bind
  intro rack hrack
  apply (keeps_evalText hev slot).bind
  intro slot
  exact (gives_listChildren hrack _).keeps.bind fun _ => rooted_foundDevice _ _

theorem gives_updateTargets (path : Node) :
    Gives Rooted (updateTargets ev path) fun paths => ∀ path ∈ paths, Path.Absolute path := by
  apply (absolute_evalTargets hev path).bind
  intro targets htargets
  split
  · refine .ite (fun _ => gives_wildcardTargets ?_) fun _ => .pure htargets
    exact htargets _ List.mem_cons_self
  · exact .pure htargets

end Listing

theorem rooted_drawable (path : Node) (key : Option String) : Keeps Rooted (drawable ev path key) := by
  apply (absolute_evalTarget hev path).bind
  intro target htarget
  apply (rooted_getObject htarget).bind
  intro object
  exact (keeps_isDrawn object).bind fun _ => (rooted_emit _).bind fun _ => .pure trivial

theorem rooted_uiMessage (command : UiCommand Node) : Keeps Rooted (uiMessage ev command) := by
  cases command with
  | delay seconds => exact (keeps_evalFloat hev _ _).bind fun _ => .pure trivial
  | toggle feature enable => exact (keeps_evalBool hev _ _).bind fun _ => .pure trivial
  | highlight path =>
    apply (absolute_evalTarget hev path).bind
    intro target htarget
    exact (rooted_requirePath htarget).bind fun _ => .pure trivial
  | clearCache => exact .pure trivial

/-! ### Drafts of objects -/

theorem rooted_sibling (node : Node) (parent : String) : Keeps Rooted (sibling ev node parent) := by
  apply (absolute_pathIn hev node parent).bind
  intro target htarget
  exact (rooted_requirePath htarget).bind fun _ => .pure trivial

theorem rooted_siblings (parent : String) (nodes : List Node) :
    Keeps Rooted (siblings ev parent nodes) := by
  induction nodes with
  | nil => exact .pure trivial
  | cons node rest ih =>
    exact (rooted_sibling hev node parent).bind fun _ => ih.bind fun _ => .pure trivial

theorem rooted_evalSize (node : Node) (root : String) : Keeps Rooted (evalSize ev node root) := by
  apply (hev node).bind
  intro value
  split
  · exact .ite (fun _ => .pure trivial) fun _ => .fail _
  · exact (rooted_requireTemplate root _).bind fun _ => .pure trivial
  · exact .fail _

theorem rooted_evalFootprint (position rotation size : Node) (root : String) :
    Keeps Rooted (evalFootprint ev position rotation size root) := by
  apply (keeps_evalVector hev _ _ _).bind
  intro position
  apply (keeps_evalFloat hev _ _).bind
  intro rotation
  exact (rooted_evalSize hev size root).bind fun _ => .pure trivial

theorem rooted_evalDevice (position size : Node) (side : Option Node) :
    Keeps Rooted (evalDevice ev position size side) := by
  apply (hev position).bind
  intro position
  apply (hev size).bind
  intro size
  extract_lets rest
  have hrest : ∀ attributes, Keeps Rooted (rest attributes) := fun attributes =>
    keeps_addChoice hev attributes _ _ _ side
  split
  · exact hrest _
  · exact (rooted_requireTemplate _ _).bind fun _ => hrest _

/-- A draft asks about absolute paths only, but what it drafts may be at the sign for the selection. -/
theorem means_draft (creation : Creation Node) :
    Gives Rooted (draft ev creation) fun draft => Means draft.path := by
  cases creation with
  | domain path color =>
    apply (absolute_pathIn hev path _).bind
    intro path hpath
    exact (keeps_evalColor hev color).bind fun _ => .pure (.inl hpath)
  | site path => exact (means_evalPath hev path).bind fun _ hpath => .pure hpath
  | building path position rotation size =>
    apply (means_evalPath hev path).bind
    intro path hpath
    exact (rooted_evalFootprint hev _ _ _ _).bind fun _ => .pure hpath
  | room path position rotation size axis unit =>
    apply (means_evalPath hev path).bind
    intro path hpath
    apply (rooted_evalFootprint hev _ _ _ _).bind
    intro attributes
    apply (keeps_addChoice hev _ _ _ _ axis).bind
    intro attributes
    exact (keeps_addChoice hev _ _ _ _ unit).bind fun _ => .pure hpath
  | rack path position rotation size =>
    apply (means_evalPath hev path).bind
    intro path hpath
    apply (keeps_evalPosition hev position).bind
    intro position
    apply (keeps_evalRotation hev rotation).bind
    intro rotation
    exact (rooted_evalSize hev size _).bind fun _ => .pure hpath
  | device path position size side =>
    apply (means_evalPath hev path).bind
    intro path hpath
    exact (rooted_evalDevice hev position size side).bind fun _ => .pure hpath
  | group path children =>
    apply (means_evalPath hev path).bind
    intro path hpath
    exact (rooted_siblings hev _ children).bind fun _ => .pure hpath
  | corridor path leftRack rightRack temperature =>
    apply (means_evalPath hev path).bind
    intro path hpath
    apply (rooted_sibling hev leftRack _).bind
    intro left
    apply (rooted_sibling hev rightRack _).bind
    intro right
    apply (keeps_evalText hev temperature).bind
    intro temperature
    exact (keeps_oneOf _ _ _).bind fun _ => .pure hpath
  | tag slug color =>
    apply (keeps_evalText hev slug).bind
    intro slug
    exact (keeps_evalColor hev color).bind fun _ => .pure (.inl (Path.absolute_join _ _))
  | orphan path template =>
    apply (absolute_pathIn hev path _).bind
    intro path hpath
    apply (keeps_evalText hev template).bind
    intro template
    exact (rooted_requireTemplate _ template).bind fun _ => .pure (.inl hpath)

end Arguments

end Command

end TwinShell
