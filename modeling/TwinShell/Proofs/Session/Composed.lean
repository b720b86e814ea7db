import TwinShell.Proofs.Session.Steps

/-!
# What commands are made of

A command evaluates nodes inside it, does things of its own in between, and never catches an error. What it does of its own leaves the files and the depth of scripts as they are, takes back no exit, and fails for reasons of its own, which the report of a script is not. `Composed ev c` says that the step `c` is put together in this way from the evaluator `ev`; it is closed under binds, and every command except the one that runs a script is composed. So whatever the evaluator keeps, and whatever its errors are, the same holds of each command. The rules, and what is known to be composed, are given to `grind`, so that most commands are composed by their definition; a recursion is followed by induction, and a table or a long list of cases by hand.
-/

namespace TwinShell

/-- Whether an error comes from a command itself and is not the report of a script. -/
@[grind]
def EvalError.isOwn : EvalError → Bool
  | .script _ => false
  | _ => true

/-- Whether a command stops by itself and not with the report of a script. -/
@[grind]
def Stop.isOwn : Stop → Bool
  | .failed e => e.isOwn
  | _ => true

/-- What a step of a command that runs no script has in common with its start. -/
structure Session.Leads {β ν : Type} (s s' : Session β ν) : Prop where
  files : s'.files = s.files
  scriptDepth : s'.scriptDepth = s.scriptDepth
  exitRequested : s.exitRequested → s'.exitRequested

namespace Command

variable {β ν α γ : Type} {ev : Node → Command β ν Value}

/-- A step that runs nothing, and stops only by itself. -/
def Confined (c : Command β ν α) : Prop := ∀ s, match c s with
  | .ok _ s' => s.Leads s'
  | .error stop s' => s.Leads s' ∧ stop.isOwn

/-- A step that is put together from evaluations of nodes and confined steps. -/
inductive Composed (ev : Node → Command β ν Value) : {α : Type} → Command β ν α → Prop
  | own {α : Type} {c : Command β ν α} (h : Confined c) : Composed ev c
  | node (node : Node) : Composed ev (ev node)
  | bind {α γ : Type} {x : Command β ν α} {f : α → Command β ν γ} (hx : Composed ev x)
    (hf : ∀ a, Composed ev (f a)) : Composed ev (x >>= f)

attribute [grind ←] Composed.bind

/-! ### What follows -/

/-- The step keeps an invariant, its result has a property, and it stops only for given reasons. -/
def Ends (P : Session β ν → Prop) (c : Command β ν α) (Q : α → Prop) (E : Stop → Prop) : Prop :=
  ∀ s, P s → match c s with
    | .ok a s' => P s' ∧ Q a
    | .error stop s' => P s' ∧ E stop

section Ends

variable {P : Session β ν → Prop} {Q : α → Prop} {R : γ → Prop} {E : Stop → Prop}

theorem Ends.pure {a : α} (h : Q a) : Ends P (Pure.pure a) Q E := fun _ hs => ⟨hs, h⟩

theorem Ends.fail {e : EvalError} (h : E (.failed e)) : Ends P (fail e) Q E := fun _ hs => ⟨hs, h⟩

theorem Ends.get : Ends P (MonadState.get : Command β ν (Session β ν)) P E := fun _ hs => ⟨hs, hs⟩

theorem Ends.bind {x : Command β ν α} {f : α → Command β ν γ} (hx : Ends P x Q E)
    (hf : ∀ a, Q a → Ends P (f a) R E) : Ends P (x >>= f) R E := by
  intro s hs
  have hfirst := hx s hs
  simp only [Bind.bind, EStateM.bind]
  cases h : x s with
  | error stop s' =>
    rw [h] at hfirst
    exact hfirst
  | ok a s' =>
    rw [h] at hfirst
    exact hf a hfirst.2 s' hfirst.1

theorem Ends.imp {Q' : α → Prop} {E' : Stop → Prop} {c : Command β ν α} (h : Ends P c Q E)
    (hQ : ∀ a, Q a → Q' a) (hE : ∀ stop, E stop → E' stop) : Ends P c Q' E' := by
  intro s hs
  have hpost := h s hs
  split
  · rename_i a s' heq
    rw [heq] at hpost
    exact ⟨hpost.1, hQ a hpost.2⟩
  · rename_i stop s' heq
    rw [heq] at hpost
    exact ⟨hpost.1, hE stop hpost.2⟩

/-- A composed step keeps what the evaluator and confined steps keep, and stops for the reasons of the evaluator or by itself. -/
theorem Composed.ends (hP : ∀ s s', s.Leads s' → P s → P s') (hE : ∀ stop, stop.isOwn → E stop)
    (hev : ∀ node, Ends P (ev node) (fun _ => True) E) {c : Command β ν α} (h : Composed ev c) :
    Ends P c (fun _ => True) E := by
  induction h with
  | own h =>
    intro s hs
    have hleads := h s
    split
    · rename_i a s' heq
      rw [heq] at hleads
      exact ⟨hP s s' hleads hs, trivial⟩
    · rename_i stop s' heq
      rw [heq] at hleads
      exact ⟨hP s s' hleads.1 hs, hE stop hleads.2⟩
  | node node => exact hev node
  | bind _ _ hx hf => exact hx.bind fun a _ => hf a

theorem Ends.gives {c : Command β ν α} (h : Ends P c Q E) : Gives P c Q := by
  intro s hs
  have hpost := h s hs
  split
  · rename_i a s' heq
    rw [heq] at hpost
    exact hpost
  · rename_i stop s' heq
    rw [heq] at hpost
    exact hpost.1

theorem Gives.ends {c : Command β ν α} (h : Gives P c Q) : Ends P c Q fun _ => True := by
  intro s hs
  have hpost := h s hs
  split
  · rename_i a s' heq
    rw [heq] at hpost
    exact hpost
  · rename_i stop s' heq
    rw [heq] at hpost
    exact ⟨hpost, trivial⟩

theorem Composed.keeps (hP : ∀ s s', s.Leads s' → P s → P s') (hev : ∀ node, Keeps P (ev node))
    {c : Command β ν α} (h : Composed ev c) : Keeps P c :=
  (h.ends hP (fun _ _ => trivial) fun node => (hev node).ends).gives

end Ends

/-! ### Confined steps -/

namespace Composed

-- With the evaluator as an argument, so that the rule can be given to `grind` for a fixed one.
theorem call (ev : Node → Command β ν Value) (node : Node) : Composed ev (ev node) := .node node

@[grind ←] theorem pure (a : α) : Composed ev (Pure.pure a) := .own fun _ => ⟨rfl, rfl, id⟩

@[grind ←] theorem throw {stop : Stop} (h : stop.isOwn) : Composed (α := α) ev (MonadExcept.throw stop) :=
  .own fun _ => ⟨⟨rfl, rfl, id⟩, h⟩

@[grind ←] theorem fail {e : EvalError} (h : e.isOwn) : Composed (α := α) ev (fail e) := .throw h

@[grind ←] theorem failType (problem : TypeProblem) : Composed (α := α) ev (failType problem) := .fail rfl

@[grind ←] theorem failPath (problem : PathProblem) : Composed (α := α) ev (failPath problem) := .fail rfl

@[grind ←] theorem failRuntime (problem : RuntimeProblem) :
    Composed (α := α) ev (failRuntime problem) := .fail rfl

@[grind ←] theorem get : Composed ev (MonadState.get : Command β ν (Session β ν)) :=
  .own fun _ => ⟨rfl, rfl, id⟩

@[grind ←] theorem getEnv : Composed ev (getEnv : Command β ν Environment) := .own fun _ => ⟨rfl, rfl, id⟩

@[grind ←] theorem modifyEnv (f : Environment → Environment) : Composed ev (modifyEnv f) :=
  .own fun _ => ⟨rfl, rfl, id⟩

@[grind ←] theorem emit (line : String) : Composed ev (emit line) := .own fun _ => ⟨rfl, rfl, id⟩

@[grind ←] theorem onHierarchy (op : EStateM HierarchyError β α) : Composed ev (onHierarchy op) := by
  refine .own fun s => ?_
  simp only [Command.onHierarchy]
  cases op s.hierarchy with
  | ok a hierarchy => exact ⟨rfl, rfl, id⟩
  | error e hierarchy => exact ⟨⟨rfl, rfl, id⟩, rfl⟩

@[grind ←] theorem onViewer (op : EStateM ViewerError ν α) : Composed ev (onViewer op) := by
  refine .own fun s => ?_
  simp only [Command.onViewer]
  cases op s.viewer with
  | ok a viewer => exact ⟨rfl, rfl, id⟩
  | error e viewer => exact ⟨⟨rfl, rfl, id⟩, rfl⟩

@[grind ←] theorem readFile (path : String) : Composed ev (readFile path) := by
  refine .own fun s => ?_
  simp only [Command.readFile]
  cases s.files.read path with
  | ok text => exact ⟨rfl, rfl, id⟩
  | error e => exact ⟨⟨rfl, rfl, id⟩, rfl⟩

@[grind ←] theorem notify [Viewer ν] (message : Json) : Composed ev (notify message) := by
  refine .own fun s => ?_
  obtain ⟨viewer, h⟩ := notify_eq_ok message s
  rw [h]
  exact ⟨rfl, rfl, id⟩

@[grind ←] theorem forM {f : α → Command β ν PUnit} (h : ∀ a, Composed ev (f a)) (l : List α) :
    Composed ev (l.forM f) := by
  induction l with
  | nil => exact .pure _
  | cons a l ih => exact (h a).bind fun _ => ih

end Composed

/-! ### Results -/

/-- A result that is an error only for reasons of its own. -/
def OwnErrors (result : Except EvalError α) : Prop := ∀ e, result = .error e → e.isOwn

@[grind ←] theorem OwnErrors.ok (a : α) : OwnErrors (.ok a) := nofun

@[grind ←] theorem OwnErrors.pure (a : α) : OwnErrors (Pure.pure a) := nofun

@[grind ←] theorem OwnErrors.error {e : EvalError} (h : e.isOwn) : OwnErrors (α := α) (.error e) := by
  rintro _ ⟨⟩
  exact h

@[grind ←] theorem OwnErrors.bind {x : Except EvalError α} {f : α → Except EvalError γ} (hx : OwnErrors x)
    (hf : ∀ a, OwnErrors (f a)) : OwnErrors (x >>= f) := by
  cases x with
  | ok a => exact hf a
  | error e => exact .error (hx e rfl)

@[grind ←] theorem OwnErrors.mapError {ε : Type} {f : ε → EvalError} (hf : ∀ e, (f e).isOwn)
    (x : Except ε α) : OwnErrors (x.mapError f) := by
  cases x with
  | ok a => exact .ok a
  | error e => exact .error (hf e)

@[grind ←] theorem Composed.settle {result : Except EvalError α} (h : OwnErrors result) :
    Composed ev (settle result) := by
  cases result with
  | ok a => exact .pure a
  | error e => exact .fail (h e rfl)

@[grind ←] theorem ownErrors_vectorOf (value : Value) (what : String) (length : Nat) :
    OwnErrors (vectorOf value what length) := by grind [vectorOf]

@[grind ←] theorem ownErrors_item (array : Value) (index : Int64) : OwnErrors (item array index) := by
  grind [item.eq_def]

theorem isOwn_ofArith (e : ArithError) : (EvalError.ofArith e).isOwn := by cases e <;> rfl

@[grind ←] theorem ownErrors_binary (op : BinaryOp) (left right : Value) :
    OwnErrors (binary op left right) := by
  have harith := isOwn_ofArith
  grind [binary.eq_def, binary.logic]

@[grind ←] theorem ownErrors_negated (value : Value) : OwnErrors (negated value) := by
  have harith := isOwn_ofArith
  grind [negated]

@[grind ←] theorem ownErrors_singleValue (values : List Value) (key : String) :
    OwnErrors (singleValue values key) := by grind [singleValue.eq_def]

@[grind ←] theorem ownErrors_areaOf (value : Value) (name : String) : OwnErrors (areaOf value name) := by
  grind [areaOf]

@[grind ←] theorem ownErrors_areasPatch (values : List Value) : OwnErrors (areasPatch values) := by
  grind [areasPatch.eq_def]

@[grind ←] theorem ownErrors_separatorEntry (values : List Value) : OwnErrors (separatorEntry values) := by
  grind [separatorEntry.eq_def]

@[grind ←] theorem ownErrors_pillarEntry (values : List Value) : OwnErrors (pillarEntry values) := by
  grind [pillarEntry.eq_def]

@[grind ←] theorem ownErrors_labelFont (values : List Value) : OwnErrors (labelFont values) := by
  grind [labelFont.eq_def]

@[grind ←] theorem ownErrors_domainArguments (values : List Value) :
    OwnErrors (domainArguments values) := by
  grind [domainArguments.eq_def]

@[grind ←] theorem ownErrors_tagPatch (key : String) (values : List Value) :
    OwnErrors (tagPatch key values) := by
  grind [tagPatch]

/-! ### Arguments -/

@[grind ←] theorem composed_evalAll (nodes : List Node) : Composed ev (evalAll ev nodes) := by
  induction nodes with grind [evalAll, Composed.call ev]

@[grind ←] theorem composed_evalText (node : Node) : Composed ev (evalText ev node) := by
  grind [evalText, Composed.call ev]

@[grind ←] theorem composed_evalRawPath (node : Node) : Composed ev (evalRawPath ev node) := by
  grind [evalRawPath.eq_def]

@[grind ←] theorem composed_evalBool (node : Node) (what : String) :
    Composed ev (evalBool ev node what) := by
  grind [evalBool, Composed.call ev]

@[grind ←] theorem composed_evalInt (node : Node) (what : String) : Composed ev (evalInt ev node what) := by
  grind [evalInt, Composed.call ev]

@[grind ←] theorem composed_evalFloat (node : Node) (what : String) :
    Composed ev (evalFloat ev node what) := by
  grind [evalFloat, Composed.call ev]

@[grind ←] theorem composed_evalVector (node : Node) (what : String) (length : Nat) :
    Composed ev (evalVector ev node what length) := by
  grind [evalVector, Composed.call ev]

@[grind ←] theorem composed_evalPath (node : Node) : Composed ev (evalPath ev node) := by
  grind [evalPath, resolve]

@[grind ←] theorem composed_evalPaths (nodes : List Node) : Composed ev (evalPaths ev nodes) := by
  induction nodes with grind [evalPaths]

@[grind ←] theorem composed_evalTargets (node : Node) : Composed ev (evalTargets ev node) := by
  grind [evalTargets]

@[grind ←] theorem composed_evalTarget (node : Node) : Composed ev (evalTarget ev node) := by
  grind [evalTarget]

@[grind ←] theorem composed_evalOptionalText (node : Option Node) :
    Composed ev (evalOptionalText ev node) := by
  cases node with grind [evalOptionalText]

@[grind ←] theorem composed_listFilter (filters : List (String × Node)) (filter : Filter) :
    Composed ev (listFilter ev filter filters) := by
  induction filters generalizing filter with grind [listFilter]

@[grind ←] theorem composed_pathIn (node : Node) (root : String) : Composed ev (pathIn ev node root) := by
  grind [pathIn, resolve]

@[grind ←] theorem composed_evalColor (node : Node) : Composed ev (evalColor ev node) := by
  grind [evalColor]

@[grind ←] theorem composed_evalRotation (node : Node) : Composed ev (evalRotation ev node) := by
  grind [evalRotation, Composed.call ev]

@[grind ←] theorem composed_evalPosition (node : Node) : Composed ev (evalPosition ev node) := by
  grind [evalPosition, Composed.call ev]

@[grind ←] theorem composed_addChoice (attributes : Object) (key what : String) (allowed : List String)
    (node : Option Node) : Composed ev (addChoice ev attributes key what allowed node) := by
  cases node with grind [addChoice, oneOf]

@[grind ←] theorem composed_cameraMessage (command : CameraCommand Node) :
    Composed ev (cameraMessage ev command) := by
  cases command with grind [cameraMessage]

/-! ### Control flow -/

@[grind ←] theorem composed_exiting : Composed ev (exiting : Command β ν Bool) := by grind [exiting]

theorem composed_sequence (last : Value) (nodes : List Node) : Composed ev (sequence ev last nodes) := by
  induction nodes generalizing last with grind [sequence, Composed.call ev]

theorem composed_conditional (condition body : Node) (otherwise : Option Node) :
    Composed ev (conditional ev condition body otherwise) := by
  cases otherwise with grind [conditional, Composed.call ev]

@[grind ←] theorem composed_loop (condition body : Node) (after : Option Node) (fuel : Nat) :
    Composed ev (loop ev condition body after fuel) := by
  induction fuel with
  | zero => exact .throw rfl
  | succ fuel ih => cases after with grind [loop, Composed.call ev]

@[grind ←] theorem composed_countUp (name : String) (body : Node) (count : Nat) (first : Int) :
    Composed ev (countUp ev name body count first) := by
  induction count generalizing first with grind [countUp, Composed.call ev]

theorem composed_forRange (name : String) (first last body : Node) :
    Composed ev (forRange ev name first last body) := by
  grind [forRange]

@[grind ←] theorem composed_forItems (name : String) (body : Node) (items : List Value) :
    Composed ev (forItems ev name body items) := by
  induction items with grind [forItems, Composed.call ev]

theorem composed_forEach (name : String) (array body : Node) :
    Composed ev (forEach ev name array body) := by
  grind [forEach, Composed.call ev]

/-! ### Variables, aliases and settings -/

@[grind ←] theorem composed_lookUp (name : String) : Composed ev (lookUp name) := by grind [lookUp]

@[grind ←] theorem composed_filled (template : String) (args : List Value) :
    Composed ev (filled template args) := by
  grind [filled]

theorem composed_assign (name : String) (node : Node) : Composed ev (assign ev name node) := by
  grind [assign, Composed.call ev]

theorem composed_callAlias (name : String) : Composed ev (callAlias ev name) := by
  grind [callAlias, Composed.call ev]

@[grind ←] theorem composed_isDrawn (object : Object) : Composed ev (isDrawn object) := by grind [isDrawn]

theorem composed_unsetVariable (name : String) : Composed ev (unsetVariable name) := by
  grind [unsetVariable]

theorem composed_unsetAlias (name : String) : Composed ev (unsetAlias name) := by grind [unsetAlias]

theorem composed_showLength (name : String) : Composed ev (showLength name) := by grind [showLength]

@[grind ←] theorem composed_emitAll (lines : List String) : Composed ev (emitAll lines) :=
  .forM (fun line => .emit line) lines

theorem composed_showSettings : Composed ev showSettings := by grind [showSettings]

theorem composed_setSetting (name : String) (node : Node) : Composed ev (setSetting ev name node) := by
  grind [setSetting, Composed.call ev]

theorem composed_manual (topic : Option String) : Composed ev (manual topic) := by
  have hshow (page : String) : Composed ev (do emit page; return Value.null) :=
    (Composed.emit page).bind fun _ => .pure _
  unfold manual
  split
  · exact hshow _
  · split
    · exact hshow _
    · exact (Composed.failRuntime _).bind fun _ => .pure _

theorem composed_checkScript (file : Node) : Composed ev (checkScript ev file) := by grind [checkScript]

/-! ### The viewer -/

section Viewing

variable [Viewer ν]

@[grind ←] theorem composed_requireViewer : Composed ev requireViewer := by
  grind [requireViewer, viewerConnected]

@[grind ←] theorem composed_send (message : Json) : Composed ev (send message) := .onViewer _

@[grind ←] theorem composed_sendInteract (target param : String) (value : Json) :
    Composed ev (sendInteract target param value) := by
  grind [sendInteract]

theorem composed_connect (address : Option Node) : Composed ev (connect ev address) := by
  cases address with grind [connect]

theorem composed_disconnect : Composed ev disconnect := by
  refine .bind (.own fun _ => ⟨rfl, rfl, id⟩) fun _ => ?_
  exact (Composed.emit _).bind fun _ => .pure _

@[grind ←] theorem composed_notifyModified (target : String) (object : Object) :
    Composed ev (notifyModified target object) := by
  grind [notifyModified]

@[grind ←] theorem composed_drawEach (objects : List (String × Object)) :
    Composed ev (drawEach objects) := by
  induction objects with grind [drawEach]

theorem composed_undraw (path : Option Node) : Composed ev (undraw ev path) := by
  cases path with grind [undraw]

theorem composed_camera (command : CameraCommand Node) : Composed ev (camera ev command) := by
  grind [camera]

end Viewing

/-! ### Looking at objects -/

@[grind ←] theorem composed_sortedBy (key : String) (entries : List (String × Object)) :
    Composed ev (sortedBy key entries) := by
  grind [sortedBy]

@[grind ←] theorem composed_foundDevice (device : Option (String × Object)) (missing : String) :
    Composed ev (foundDevice device missing) := by
  cases device with grind [foundDevice]

theorem composed_treeChildren {below : String → String → Command β ν (List String)}
    (hbelow : ∀ child indent, Composed ev (below child indent)) (indent : String)
    (children : List (String × Object)) : Composed ev (treeChildren below indent children) := by
  induction children with grind [treeChildren]

theorem composed_printSelection : Composed ev printSelection := by grind [printSelection]

section Objects

variable [Hierarchy β]

@[grind ←] theorem composed_pathExists (path : String) :
    Composed ev (pathExists path) := by grind [pathExists]

@[grind ←] theorem composed_requirePath (path : String) :
    Composed ev (requirePath path) := by grind [requirePath]

@[grind ←] theorem composed_listChildren (target : String) (filter : Filter) :
    Composed ev (listChildren target filter) := by
  grind [listChildren]

@[grind ←] theorem composed_wildcardTargets (target : String) : Composed ev (wildcardTargets target) := by
  grind [wildcardTargets]

@[grind ←] theorem composed_showObject (path : String) : Composed ev (showObject path) := by
  grind [showObject]

@[grind ←] theorem composed_showObjects (paths : List String) : Composed ev (showObjects paths) := by
  induction paths with grind [showObjects]

@[grind ←] theorem composed_treeLines (depth : Nat) (target indent : String) :
    Composed ev (treeLines depth target indent) := by
  induction depth generalizing target indent with grind [treeLines, composed_treeChildren]

theorem composed_list (listing : Listing Node) : Composed ev (list ev listing) := by
  apply (composed_evalTarget _).bind
  intro target
  apply (composed_listFilter _ _).bind
  intro filter
  apply (composed_listChildren target filter).bind
  intro entries
  split
  · exact (composed_sortedBy _ _).bind fun _ => (composed_emitAll _).bind fun _ => .pure _
  · exact (composed_emitAll _).bind fun _ => .pure _

theorem composed_tree (path : Node) (depth : Option Node) : Composed ev (tree ev path depth) := by
  grind [tree]

theorem composed_get (path : Node) : Composed ev (get ev path) := by grind [get]

theorem composed_getUnit (rack unit : Node) : Composed ev (getUnit ev rack unit) := by
  grind [getUnit, devicesOf]

theorem composed_getSlot (rack slot : Node) : Composed ev (getSlot ev rack slot) := by
  grind [getSlot, devicesOf]

theorem composed_changeDir (target : String) : Composed ev (changeDir target) := by grind [changeDir]

theorem composed_select (targets : List String) : Composed ev (select targets) := by grind [select]

/-! ### Objects -/

@[grind ←] theorem composed_sibling (node : Node) (parent : String) :
    Composed ev (sibling ev node parent) := by
  grind [sibling]

@[grind ←] theorem composed_siblings (parent : String) (nodes : List Node) :
    Composed ev (siblings ev parent nodes) := by
  induction nodes with grind [siblings]

@[grind ←] theorem composed_requireTemplate (root name : String) :
    Composed ev (requireTemplate root name) := by
  grind [requireTemplate]

@[grind ←] theorem composed_evalSize (node : Node) (root : String) :
    Composed ev (evalSize ev node root) := by
  grind [evalSize, Composed.call ev]

@[grind ←] theorem composed_evalFootprint (position rotation size : Node) (root : String) :
    Composed ev (evalFootprint ev position rotation size root) := by
  grind [evalFootprint]

@[grind ←] theorem composed_evalDevice (position size : Node) (side : Option Node) :
    Composed ev (evalDevice ev position size side) := by
  grind [evalDevice, Composed.call ev]

@[grind ←] theorem composed_draft (creation : Creation Node) : Composed ev (draft ev creation) := by
  cases creation with grind [draft, oneOf]

@[grind ←] theorem composed_addNamed (target key name : String) (entry : Json) :
    Composed ev (addNamed target key name entry) := by
  grind [addNamed]

@[grind ←] theorem composed_removeNamed (target key name : String) :
    Composed ev (removeNamed target key name) := by
  grind [removeNamed]

@[grind ←] theorem composed_addTag (target slug : String) : Composed ev (addTag target slug) := by
  grind [addTag]

@[grind ←] theorem composed_removeTag (target slug : String) : Composed ev (removeTag target slug) := by
  grind [removeTag]

@[grind ←] theorem composed_labelText (target value : String) (sharp : Bool) :
    Composed ev (labelText target value sharp) := by
  grind [labelText]

@[grind ←] theorem composed_setDomainBelow (target : String) (domain : Json) :
    Composed ev (setDomainBelow target domain) := by
  grind [setDomainBelow]

@[grind ←] theorem composed_updateTargets (path : Node) : Composed ev (updateTargets ev path) := by
  grind [updateTargets]

@[grind ←] theorem composed_unsetPatch (target key : String) (index : Option Node) :
    Composed ev (unsetPatch ev target key index) := by
  cases index with grind [unsetPatch]

theorem composed_link (source dest : Node) (slot : Option Node) :
    Composed ev (link ev source dest slot) := by
  grind [link]

theorem composed_copy (source dest : Node) : Composed ev (copy ev source dest) := by
  grind [copy, resolve]

theorem composed_loadTemplate (file : Node) : Composed ev (loadTemplate ev file) := by
  apply (composed_evalText file).bind
  intro file
  apply (Composed.readFile file).bind
  intro text
  split
  · exact .failType _
  · split
    · exact .failType _
    · exact (Composed.onHierarchy _).bind fun _ => (Composed.emit _).bind fun _ => .pure _

theorem composed_drawable (path : Node) (key : Option String) : Composed ev (drawable ev path key) := by
  grind [drawable, isDrawn]

@[grind ←] theorem composed_drawnFrom (depth : Int64) (target : String) :
    Composed ev (drawnFrom depth target) := by
  grind [drawnFrom]

@[grind ←] theorem composed_drawnFromEach (depth : Int64) (targets : List String) :
    Composed ev (drawnFromEach depth targets) := by
  induction targets with grind [drawnFromEach]

@[grind ←] theorem composed_uiMessage (command : UiCommand Node) : Composed ev (uiMessage ev command) := by
  cases command with grind [uiMessage]

/-! ### Objects that the viewer is told about -/

variable [Viewer ν]

@[grind ←] theorem composed_updatePatch (target key : String) (values : List Value) (sharp : Bool) :
    Composed ev (updatePatch target key values sharp) := by
  unfold updatePatch
  split
  · grind
  -- One case for each attribute with a rule of its own, and the last one for all others.
  · split <;> grind

@[grind ←] theorem composed_updateOne (key : String) (values : List Value) (sharp : Bool)
    (target : String) : Composed ev (updateOne key values sharp target) := by
  grind [updateOne]

@[grind ←] theorem composed_updateEach (key : String) (values : List Value) (sharp : Bool)
    (targets : List String) : Composed ev (updateEach key values sharp targets) := by
  induction targets with grind [updateEach]

theorem composed_update (path : Node) (key : String) (values : List Node) (sharp : Bool) :
    Composed ev (update ev path key values sharp) := by
  grind [update]

@[grind ←] theorem composed_unsetEach (key : String) (index : Option Node) (targets : List String) :
    Composed ev (unsetEach ev key index targets) := by
  induction targets with grind [unsetEach]

theorem composed_unsetAttribute (path : Node) (key : String) (index : Option Node) :
    Composed ev (unsetAttribute ev path key index) := by
  grind [unsetAttribute]

theorem composed_create (creation : Creation Node) : Composed ev (create ev creation) := by grind [create]

@[grind ←] theorem composed_deleteOne (target : String) : Composed ev (deleteOne target) := by
  grind [deleteOne]

@[grind ←] theorem composed_deleteEach (targets : List String) : Composed ev (deleteEach targets) := by
  induction targets with grind [deleteEach]

theorem composed_delete (path : Node) : Composed ev (delete ev path) := by grind [delete]

theorem composed_deleteSelection : Composed ev deleteSelection := by grind [deleteSelection]

theorem composed_unlink (source : Node) (dest : Option Node) : Composed ev (unlink ev source dest) := by
  cases dest with grind [unlink]

theorem composed_draw (path : Node) (depth : Option Node) (force : Bool) :
    Composed ev (draw ev path depth force) := by
  cases depth with grind [draw]

theorem composed_ui (command : UiCommand Node) : Composed ev (ui ev command) := by grind [ui]

theorem composed_focus (path : Option Node) : Composed ev (focus ev path) := by
  cases path with grind [focus]

theorem composed_showPeers : Composed ev showPeers := by grind [showPeers]

/-! ### Nodes -/

/-- Whatever a node does, unless it runs a script, it does by evaluating nodes and on its own. -/
theorem composed_step (fuel : Nat) {node : Node} (hnode : ∀ file, node ≠ .runScript file) :
    Composed ev (step ev fuel node) := by
  cases node with
  | nop | literal => exact .pure _
  | symbol name => exact composed_lookUp name
  | element name index => grind [step]
  | array items => grind [step]
  | interpolation template args => grind [step]
  | formatted template args => grind [step]
  | path raw => grind [step]
  | binary op left right => grind [step, Composed.call ev]
  | negate operand => grind [step, Composed.call ev]
  | not operand => grind [step, Composed.call ev]
  | assign name value => exact composed_assign name value
  | defineAlias name body => exact (Composed.modifyEnv _).bind fun _ => .pure _
  | callAlias name => exact composed_callAlias name
  | unsetVariable name => exact composed_unsetVariable name
  | unsetAlias name => exact composed_unsetAlias name
  | unsetAttribute path key index => exact composed_unsetAttribute path key index
  | length name => exact composed_showLength name
  | print value => exact (Composed.node value).bind fun _ => (Composed.emit _).bind fun _ => .pure _
  | showSettings => exact composed_showSettings
  | setSetting name value => exact composed_setSetting name value
  | sequence statements => exact composed_sequence .null statements
  | conditional condition body otherwise => exact composed_conditional condition body otherwise
  | whileLoop condition body => exact composed_loop condition body none fuel
  | forLoop init condition after body =>
    exact (Composed.node init).bind fun _ => composed_loop condition body (some after) fuel
  | forRange name first last body => exact composed_forRange name first last body
  | forEach name array body => exact composed_forEach name array body
  | changeDir path => exact (composed_evalPath path).bind composed_changeDir
  | printDir => exact Composed.getEnv.bind fun _ => (Composed.emit _).bind fun _ => .pure _
  | list listing => exact composed_list listing
  | tree path depth => exact composed_tree path depth
  | get path => exact composed_get path
  | getUnit path unit => exact composed_getUnit path unit
  | getSlot path slot => exact composed_getSlot path slot
  | select path => exact (composed_evalTargets path).bind composed_select
  | selectMany paths => exact (composed_evalPaths paths).bind composed_select
  | clearSelection =>
    exact (Composed.modifyEnv _).bind fun _ => (Composed.emit _).bind fun _ => .pure _
  | printSelection => exact composed_printSelection
  | create creation => exact composed_create creation
  | update path key values sharp => exact composed_update path key values sharp
  | delete path => exact composed_delete path
  | deleteSelection => exact composed_deleteSelection
  | link source dest slot => exact composed_link source dest slot
  | unlink source dest => exact composed_unlink source dest
  | copy source dest => exact composed_copy source dest
  | draw path depth force => exact composed_draw path depth force
  | undraw path => exact composed_undraw path
  | drawable path key => exact composed_drawable path key
  | ui command => exact composed_ui command
  | camera command => exact composed_camera command
  | focus path => exact composed_focus path
  | connect address => exact composed_connect address
  | disconnect => exact composed_disconnect
  | runScript file => exact absurd rfl (hnode file)
  | checkScript file => exact composed_checkScript file
  | loadTemplate file => exact composed_loadTemplate file
  | manual topic => exact composed_manual topic
  | showPeers => exact composed_showPeers
  | clearScreen => exact (Composed.emit _).bind fun _ => .pure _
  | exit => exact .bind (.own fun _ => ⟨rfl, rfl, fun _ => rfl⟩) fun _ => .pure _

end Objects

end Command

end TwinShell
