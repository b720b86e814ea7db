import TwinShell.Proofs.Session.Looking

/-!
# Commands that stay in place

Updates of objects, settings, control flow and scripts do not move the session, do not change what exists, and leave the variables and aliases to the nodes inside. They keep every invariant that is steady, if the evaluator of nested nodes does. What is left are the nodes that define, move, select, create and delete.
-/

namespace TwinShell

namespace Command

variable {β ν α : Type} [Hierarchy β] {P : Session β ν → Prop}

/-- A stable invariant that changes of objects and settings and the running of scripts do not touch either. -/
structure Steady (P : Session β ν → Prop) : Prop extends Stable P where
  updateObject : ∀ path patch, Keeps P (onHierarchy (Hierarchy.updateObject path patch))
  settings : ∀ s settings, P s → P { s with env := { s.env with settings } }
  exitRequested : ∀ s exitRequested, P s → P { s with exitRequested }
  scriptDepth : ∀ s scriptDepth, P s → P { s with scriptDepth }

/-- A steady invariant about places only: where the session is, what is selected and what exists. -/
structure OfPlaces (P : Session β ν → Prop) : Prop extends Steady P where
  bindings : ∀ s bindings, P s → P { s with env := { s.env with bindings } }
  aliases : ∀ s aliases, P s → P { s with env := { s.env with aliases } }

variable (hP : Steady P)
include hP

/-! ### Updates -/

section Updates

theorem keeps_setDomainBelow (target : String) (domain : Json) :
    Keeps P (setDomainBelow target domain) := by
  apply (hP.getChildren target _).bind
  intro children
  refine Keeps.forM fun child _ => ?_
  exact (hP.updateObject child.1 _).bind fun _ => .pure trivial

variable [Viewer ν]

theorem keeps_updateOne (key : String) (values : List Value) (sharp : Bool) (target : String) :
    Keeps P (updateOne key values sharp target) := by
  have hbelow (domain : String) := keeps_setDomainBelow hP target (.str domain)
  apply (keeps_updatePatch hP.toStable sharp fun _ domain _ => hbelow domain).bind
  intro patch
  split
  · exact .pure trivial
  · apply (hP.updateObject target _).bind
    intro object
    exact (keeps_notifyModified hP.toStable target object).bind fun _ => .pure trivial

theorem keeps_updateEach (key : String) (values : List Value) (sharp : Bool) (targets : List String) :
    Keeps P (updateEach key values sharp targets) := by
  induction targets with
  | nil => exact .pure trivial
  | cons target rest ih =>
    exact (keeps_updateOne hP key values sharp target).bind fun _ => ih.bind fun _ => .pure trivial

variable {ev : Node → Command β ν Value} (hev : ∀ node, Keeps P (ev node))
include hev

theorem keeps_update (path : Node) (key : String) (values : List Node) (sharp : Bool) :
    Keeps P (update ev path key values sharp) := by
  apply (keeps_evalAll hev values).bind
  intro values
  apply (keeps_updateTargets hP.toStable hev path).bind
  intro _
  apply (keeps_updateEach hP key values sharp _).bind
  intro objects
  split <;> exact .pure trivial

theorem keeps_unsetEach (key : String) (index : Option Node) (targets : List String) :
    Keeps P (unsetEach ev key index targets) := by
  induction targets with
  | nil => exact .pure trivial
  | cons target rest ih =>
    apply (keeps_unsetPatch hP.toStable hev target key index).bind
    intro patch
    apply (hP.updateObject target patch).bind
    intro object
    exact (keeps_notifyModified hP.toStable target object).bind fun _ => ih

theorem keeps_unsetAttribute (path : Node) (key : String) (index : Option Node) :
    Keeps P (unsetAttribute ev path key index) :=
  (keeps_evalTargets hev path).bind fun _ =>
    (keeps_unsetEach hP hev key index _).bind fun _ => .pure trivial

end Updates

/-! ### Variables, aliases and settings -/

theorem keeps_showLength (name : String) : Keeps P (showLength name) := by
  apply (keeps_lookUp name).bind
  intro value
  split
  · exact (keeps_emit hP.toStable _).bind fun _ => .pure trivial
  · exact .fail _

theorem keeps_showSettings : Keeps P showSettings := by
  apply Keeps.getEnv.bind
  intro env
  apply (keeps_emitAll hP.toStable _).bind
  intro _
  exact (keeps_emitAll hP.toStable _).bind fun _ => .pure trivial

theorem keeps_manual (topic : Option String) : Keeps P (manual topic) := by
  unfold manual
  extract_lets rest
  have hshow : ∀ page, Keeps P (emit page >>= rest) := fun page =>
    (keeps_emit hP.toStable page).bind fun _ => .pure trivial
  split
  · exact hshow _
  · split
    · exact hshow _
    · exact Keeps.bind (.fail _) fun _ => .pure trivial

section Nested

variable {ev : Node → Command β ν Value} (hev : ∀ node, Keeps P (ev node))
include hev

theorem keeps_setSetting (name : String) (node : Node) : Keeps P (setSetting ev name node) := by
  apply (hev node).bind
  intro value
  apply Keeps.getEnv.bind
  intro env
  apply (Keeps.settle _).bind
  intro settings
  exact Keeps.bind (fun s hs => ⟨hP.settings s _ hs, trivial⟩) fun _ => .pure trivial

/-! ### Scripts -/

theorem keeps_runFile (path : String) : Keeps P (runFile ev path) :=
  (keeps_readFile hP.toStable path).bind fun _ => keeps_runText hev _ _

omit hev in
theorem keeps_nested {step : Command β ν α} (hstep : Keeps P step) : Keeps P (nested step) := by
  intro s hs
  have hpost := hstep _ (hP.scriptDepth s (s.scriptDepth + 1) hs)
  simp only [nested]
  cases h : step { s with scriptDepth := s.scriptDepth + 1 } with
  | ok a s' =>
    rw [h] at hpost
    exact ⟨hP.scriptDepth s' _ hpost.1, trivial⟩
  | error stop s' =>
    rw [h] at hpost
    exact hP.scriptDepth s' _ hpost

theorem keeps_runScript (file : Node) : Keeps P (runScript ev file) := by
  apply (keeps_evalText hev file).bind
  intro file
  apply Keeps.get.bind
  intro s
  refine .ite (fun _ => .fail _) fun _ => ?_
  exact (keeps_nested hP (keeps_runFile hP hev file)).bind fun _ => .pure trivial

theorem keeps_checkScript (file : Node) : Keeps P (checkScript ev file) := by
  apply (keeps_evalText hev file).bind
  intro file
  apply (keeps_readFile hP.toStable file).bind
  intro text
  extract_lets errors
  clear_value errors
  apply (keeps_emit hP.toStable _).bind
  intro _
  apply (keeps_emit hP.toStable _).bind
  intro _
  exact (keeps_emitAll hP.toStable _).bind fun _ => .pure trivial

end Nested

end Command

/-- Whether a node itself neither defines nor moves, selects, creates or deletes anything. -/
def Node.isSteady : Node → Bool
  | .assign .. | .defineAlias .. | .unsetVariable .. | .unsetAlias .. | .forRange .. | .forEach ..
  | .changeDir .. | .select .. | .selectMany .. | .clearSelection | .focus .. | .create ..
  | .delete .. | .deleteSelection | .link .. | .unlink .. | .copy .. | .loadTemplate .. => false
  | _ => true

/-- Every steady node keeps a steady invariant, if the nodes inside it do. -/
theorem Command.keeps_step_of_steady {β ν : Type} [Hierarchy β] [Viewer ν] {P : Session β ν → Prop}
    (hP : Steady P) {ev : Node → Command β ν Value} (hev : ∀ node, Keeps P (ev node)) (fuel : Nat)
    {node : Node} (hnode : node.isSteady) : Keeps P (step ev fuel node) := by
  have hstable := hP.toStable
  cases node with
  | nop | literal => exact .pure trivial
  | symbol | element | array | interpolation | formatted | path | binary | negate | not =>
    exact keeps_step_of_isExpression hev fuel rfl
  | callAlias name => exact keeps_callAlias hev name
  | unsetAttribute path key index => exact keeps_unsetAttribute hP hev path key index
  | length name => exact keeps_showLength hP name
  | print value => exact (hev value).bind fun _ => (keeps_emit hstable _).bind fun _ => .pure trivial
  | showSettings => exact keeps_showSettings hP
  | setSetting name value => exact keeps_setSetting hP hev name value
  | sequence statements => exact keeps_sequence hev .null statements
  | conditional condition body otherwise => exact keeps_conditional hev condition body otherwise
  | whileLoop condition body => exact keeps_loop hev condition body none fuel
  | forLoop init condition after body =>
    exact (hev init).bind fun _ => keeps_loop hev condition body (some after) fuel
  | printDir =>
    exact Keeps.getEnv.bind fun _ => (keeps_emit hstable _).bind fun _ => .pure trivial
  | list listing => exact keeps_list hstable hev listing
  | tree path depth => exact keeps_tree hstable hev path depth
  | get path => exact keeps_get hstable hev path
  | getUnit path unit => exact keeps_getUnit hstable hev path unit
  | getSlot path slot => exact keeps_getSlot hstable hev path slot
  | printSelection => exact keeps_printSelection hstable
  | update path key values sharp => exact keeps_update hP hev path key values sharp
  | draw path depth force => exact keeps_draw hstable hev path depth force
  | undraw path => exact keeps_undraw hstable hev path
  | drawable path key => exact keeps_drawable hstable hev path key
  | ui command => exact keeps_ui hstable hev command
  | camera command => exact keeps_camera hstable hev command
  | connect address => exact keeps_connect hstable hev address
  | disconnect => exact keeps_disconnect hstable
  | runScript file => exact keeps_runScript hP hev file
  | checkScript file => exact keeps_checkScript hP hev file
  | manual topic => exact keeps_manual hP topic
  | showPeers => exact keeps_showPeers hstable
  | clearScreen => exact (keeps_emit hstable _).bind fun _ => .pure trivial
  | exit => exact Keeps.bind (fun s hs => ⟨hP.exitRequested s true hs, trivial⟩) fun _ => .pure trivial
  | _ => cases hnode

end TwinShell
