import TwinShell.Proofs.Language.Shapes
import TwinShell.Proofs.Session.Steps

/-!
# What evaluation asks of the nodes inside

A node is evaluated with an evaluator for the nodes inside it, and asks it for nothing else: two evaluators that do the same there lead to the same. Only an alias and a script bring in nodes from elsewhere. So what is known of the nodes in a family that is closed under going inside can be used as if it were known of all nodes: the evaluator is replaced by one that refuses the others.
-/

namespace TwinShell

namespace Command

variable {β ν : Type}

/-- Two evaluators do the same on a family of nodes that is closed under going inside. -/
structure SameOn (H : Node → Prop) (ev ev' : Node → Command β ν Value) : Prop where
  part : ∀ {node part}, H node → part ∈ node.parts → H part
  eq : ∀ {node}, H node → ev node = ev' node

variable {H : Node → Prop} {ev ev' : Node → Command β ν Value} {node : Node} {nodes : List Node}

section Congruence

variable (hev : SameOn H ev ev')
include hev

/-! ### Arguments -/

theorem evalAll_congr (h : ∀ node ∈ nodes, H node) : evalAll ev nodes = evalAll ev' nodes := by
  induction nodes with
  | nil => rfl
  | cons node rest ih =>
    obtain ⟨hnode, hrest⟩ := List.forall_mem_cons.1 h
    simp only [evalAll, hev.eq hnode, ih hrest]

theorem evalText_congr (h : H node) : evalText ev node = evalText ev' node := by
  simp only [evalText, hev.eq h]

theorem evalRawPath_congr (h : H node) : evalRawPath ev node = evalRawPath ev' node := by
  cases node with
  | path raw => exact evalText_congr hev (hev.part h List.mem_cons_self)
  | _ => exact evalText_congr hev h

theorem evalPath_congr (h : H node) : evalPath ev node = evalPath ev' node := by
  simp only [evalPath, evalRawPath_congr hev h]

theorem evalPaths_congr (h : ∀ node ∈ nodes, H node) : evalPaths ev nodes = evalPaths ev' nodes := by
  induction nodes with
  | nil => rfl
  | cons node rest ih =>
    obtain ⟨hnode, hrest⟩ := List.forall_mem_cons.1 h
    simp only [evalPaths, evalPath_congr hev hnode, ih hrest]

theorem evalTargets_congr (h : H node) : evalTargets ev node = evalTargets ev' node := by
  simp only [evalTargets, evalPath_congr hev h]

theorem evalTarget_congr (h : H node) : evalTarget ev node = evalTarget ev' node := by
  simp only [evalTarget, evalTargets_congr hev h]

theorem evalBool_congr (h : H node) (what : String) : evalBool ev node what = evalBool ev' node what := by
  simp only [evalBool, hev.eq h]

theorem evalInt_congr (h : H node) (what : String) : evalInt ev node what = evalInt ev' node what := by
  simp only [evalInt, hev.eq h]

theorem evalFloat_congr (h : H node) (what : String) :
    evalFloat ev node what = evalFloat ev' node what := by
  simp only [evalFloat, hev.eq h]

theorem evalVector_congr (h : H node) (what : String) (length : Nat) :
    evalVector ev node what length = evalVector ev' node what length := by
  simp only [evalVector, hev.eq h]

theorem evalOptionalText_congr {node : Option Node} (h : ∀ part ∈ node.toList, H part) :
    evalOptionalText ev node = evalOptionalText ev' node := by
  cases node with
  | none => rfl
  | some node => simp only [evalOptionalText, evalText_congr hev (h node List.mem_cons_self)]

theorem listFilter_congr {filters : List (String × Node)} (h : ∀ node ∈ filters.map (·.2), H node)
    (filter : Filter) : listFilter ev filter filters = listFilter ev' filter filters := by
  induction filters generalizing filter with
  | nil => rfl
  | cons entry rest ih =>
    rw [List.map_cons, List.forall_mem_cons] at h
    simp only [listFilter, evalText_congr hev h.1, ih h.2]

theorem pathIn_congr (h : H node) (root : String) : pathIn ev node root = pathIn ev' node root := by
  simp only [pathIn, evalRawPath_congr hev h]

theorem evalColor_congr (h : H node) : evalColor ev node = evalColor ev' node := by
  simp only [evalColor, evalText_congr hev h]

theorem evalRotation_congr (h : H node) : evalRotation ev node = evalRotation ev' node := by
  simp only [evalRotation, hev.eq h]

theorem evalPosition_congr (h : H node) : evalPosition ev node = evalPosition ev' node := by
  simp only [evalPosition, hev.eq h]

theorem addChoice_congr {node : Option Node} (h : ∀ part ∈ node.toList, H part) (attributes : Object)
    (key what : String) (allowed : List String) :
    addChoice ev attributes key what allowed node = addChoice ev' attributes key what allowed node := by
  cases node with
  | none => rfl
  | some node => simp only [addChoice, evalText_congr hev (h node List.mem_cons_self)]

section Drafts

variable [Hierarchy β]

theorem siblings_congr (h : ∀ node ∈ nodes, H node) (parent : String) :
    siblings ev parent nodes = siblings ev' parent nodes := by
  induction nodes with
  | nil => rfl
  | cons node rest ih =>
    obtain ⟨hnode, hrest⟩ := List.forall_mem_cons.1 h
    simp only [siblings, sibling, pathIn_congr hev hnode, ih hrest]

theorem evalSize_congr (h : H node) (root : String) : evalSize ev node root = evalSize ev' node root := by
  simp only [evalSize, hev.eq h]

theorem evalFootprint_congr {position rotation size : Node} (hposition : H position)
    (hrotation : H rotation) (hsize : H size) (root : String) :
    evalFootprint ev position rotation size root = evalFootprint ev' position rotation size root := by
  simp only [evalFootprint, evalVector_congr hev hposition, evalFloat_congr hev hrotation,
    evalSize_congr hev hsize]

theorem draft_congr {creation : Creation Node} (h : ∀ part ∈ creation.parts, H part) :
    draft ev creation = draft ev' creation := by
  cases creation with
  | domain path color =>
    simp only [Creation.parts, List.forall_mem_cons] at h
    simp only [draft, pathIn_congr hev h.1, evalColor_congr hev h.2.1]
  | site path =>
    simp only [Creation.parts, List.forall_mem_cons] at h
    simp only [draft, evalPath_congr hev h.1]
  | building path position rotation size =>
    simp only [Creation.parts, List.forall_mem_cons] at h
    obtain ⟨hpath, hposition, hrotation, hsize, -⟩ := h
    simp only [draft, evalPath_congr hev hpath, evalFootprint_congr hev hposition hrotation hsize]
  | room path position rotation size axis unit =>
    simp only [Creation.parts, List.forall_mem_append, List.forall_mem_cons] at h
    obtain ⟨⟨⟨hpath, hposition, hrotation, hsize, -⟩, haxis⟩, hunit⟩ := h
    simp only [draft, evalPath_congr hev hpath, evalFootprint_congr hev hposition hrotation hsize,
      addChoice_congr hev haxis, addChoice_congr hev hunit]
  | rack path position rotation size =>
    simp only [Creation.parts, List.forall_mem_cons] at h
    obtain ⟨hpath, hposition, hrotation, hsize, -⟩ := h
    simp only [draft, evalPath_congr hev hpath, evalPosition_congr hev hposition,
      evalRotation_congr hev hrotation, evalSize_congr hev hsize]
  | device path position size side =>
    simp only [Creation.parts, List.forall_mem_append, List.forall_mem_cons] at h
    obtain ⟨⟨hpath, hposition, hsize, -⟩, hside⟩ := h
    simp only [draft, evalPath_congr hev hpath, evalDevice, hev.eq hposition, hev.eq hsize,
      addChoice_congr hev hside]
  | group path children =>
    simp only [Creation.parts, List.forall_mem_cons] at h
    simp only [draft, evalPath_congr hev h.1, siblings_congr hev h.2]
  | corridor path leftRack rightRack temperature =>
    simp only [Creation.parts, List.forall_mem_cons] at h
    obtain ⟨hpath, hleft, hright, htemperature, -⟩ := h
    simp only [draft, evalPath_congr hev hpath, sibling, pathIn_congr hev hleft, pathIn_congr hev hright,
      evalText_congr hev htemperature]
  | tag slug color =>
    simp only [Creation.parts, List.forall_mem_cons] at h
    simp only [draft, evalText_congr hev h.1, evalColor_congr hev h.2.1]
  | orphan path template =>
    simp only [Creation.parts, List.forall_mem_cons] at h
    simp only [draft, pathIn_congr hev h.1, evalText_congr hev h.2.1]

end Drafts

/-! ### Loops and scripts -/

theorem sequence_congr (h : ∀ node ∈ nodes, H node) (last : Value) :
    sequence ev last nodes = sequence ev' last nodes := by
  induction nodes generalizing last with
  | nil => rfl
  | cons node rest ih =>
    obtain ⟨hnode, hrest⟩ := List.forall_mem_cons.1 h
    simp only [sequence, hev.eq hnode, ih hrest]

theorem loop_congr {condition body : Node} (step : Option Node) (hcondition : H condition)
    (hbody : H body) (hstep : ∀ node ∈ step.toList, H node) (fuel : Nat) :
    loop ev condition body step fuel = loop ev' condition body step fuel := by
  induction fuel with
  | zero => rfl
  | succ fuel ih =>
    cases step with
    | none => simp only [loop, evalBool_congr hev hcondition, hev.eq hbody, ih]
    | some step =>
      simp only [loop, evalBool_congr hev hcondition, hev.eq hbody,
        hev.eq (hstep step List.mem_cons_self), ih]

theorem countUp_congr {body : Node} (h : H body) (name : String) (count : Nat) (first : Int) :
    countUp ev name body count first = countUp ev' name body count first := by
  induction count generalizing first with
  | zero => rfl
  | succ count ih => simp only [countUp, hev.eq h, ih]

theorem forItems_congr {body : Node} (h : H body) (name : String) (items : List Value) :
    forItems ev name body items = forItems ev' name body items := by
  induction items with
  | nil => rfl
  | cons value rest ih => simp only [forItems, hev.eq h, ih]

theorem runStatements_congr {statements : List (Statement Node)}
    (h : ∀ statement ∈ statements, H statement.content) (file : String) :
    runStatements ev file statements = runStatements ev' file statements := by
  induction statements with
  | nil => rfl
  | cons statement rest ih =>
    obtain ⟨hstatement, hrest⟩ := List.forall_mem_cons.1 h
    have hone : runStatement ev file statement = runStatement ev' file statement := by
      funext s
      simp only [runStatement, hev.eq hstatement]
    simp only [runStatements, hone, ih hrest]

/-- A script of statements in the family runs the same. -/
theorem runScript_congr {file : Node} (hfile : H file)
    (h : ∀ text, ∀ statement ∈ (Script.read text).statements, H statement.content) :
    runScript ev file = runScript ev' file := by
  have htext : ∀ name text, runText ev name text = runText ev' name text := fun name text => by
    simp only [runText, runStatements_congr hev (h text)]
  simp only [runScript, runFile, evalText_congr hev hfile, htext]

/-! ### Nodes -/

variable [Hierarchy β] [Viewer ν]

theorem unsetAttribute_congr {path : Node} {index : Option Node} (hpath : H path)
    (hindex : ∀ node ∈ index.toList, H node) (key : String) :
    unsetAttribute ev path key index = unsetAttribute ev' path key index := by
  have hpatch : ∀ target, unsetPatch ev target key index = unsetPatch ev' target key index := by
    intro target
    cases index with
    | none => rfl
    | some index => simp only [unsetPatch, evalInt_congr hev (hindex index List.mem_cons_self)]
  have heach : ∀ targets, unsetEach ev key index targets = unsetEach ev' key index targets := by
    intro targets
    induction targets with
    | nil => rfl
    | cons target rest ih => simp only [unsetEach, hpatch, ih]
  simp only [unsetAttribute, evalTargets_congr hev hpath, heach]

omit [Viewer ν] in
theorem uiMessage_congr {command : UiCommand Node} (h : ∀ part ∈ command.parts, H part) :
    uiMessage ev command = uiMessage ev' command := by
  cases command with
  | delay seconds => simp only [uiMessage, evalFloat_congr hev (h seconds List.mem_cons_self)]
  | toggle feature enable => simp only [uiMessage, evalBool_congr hev (h enable List.mem_cons_self)]
  | highlight path => simp only [uiMessage, evalTarget_congr hev (h path List.mem_cons_self)]
  | clearCache => rfl

omit [Hierarchy β] [Viewer ν] in
theorem cameraMessage_congr {command : CameraCommand Node} (h : ∀ part ∈ command.parts, H part) :
    cameraMessage ev command = cameraMessage ev' command := by
  cases command with
  | go motion position rotation =>
    simp only [CameraCommand.parts, List.forall_mem_cons] at h
    simp only [cameraMessage, evalVector_congr hev h.1, evalVector_congr hev h.2.1]
  | wait seconds => simp only [cameraMessage, evalFloat_congr hev (h seconds List.mem_cons_self)]

/-- A node that is no alias and no script depends on the nodes inside it alone. -/
theorem step_congr (fuel : Nat) (hparts : ∀ part ∈ node.parts, H part)
    (halias : ∀ name, node ≠ .callAlias name) (hscript : ∀ file, node ≠ .runScript file) :
    step ev fuel node = step ev' fuel node := by
  cases node with
  | nop | literal | symbol | unsetVariable | unsetAlias | length | showSettings | printDir
  | clearSelection | printSelection | deleteSelection | disconnect | manual | showPeers | clearScreen
  | exit | defineAlias => rfl
  | callAlias name => exact absurd rfl (halias name)
  | runScript file => exact absurd rfl (hscript file)
  | element name index => simp only [step, evalInt_congr hev (hparts index List.mem_cons_self)]
  | array items =>
    have hitems : ∀ item ∈ items, H item := hparts
    simp only [step, evalAll_congr hev hitems]
  | interpolation template args =>
    have hargs : ∀ arg ∈ args, H arg := hparts
    simp only [step, evalAll_congr hev hargs]
  | formatted template args =>
    obtain ⟨htemplate, hargs⟩ := List.forall_mem_cons.1 hparts
    simp only [step, evalText_congr hev htemplate, evalAll_congr hev hargs]
  | path raw => simp only [step, evalPath, evalRawPath, evalText_congr hev (hparts raw List.mem_cons_self)]
  | binary op left right =>
    simp only [Node.parts, List.forall_mem_cons] at hparts
    simp only [step, hev.eq hparts.1, hev.eq hparts.2.1]
  | negate operand | not operand | print operand =>
    simp only [step, hev.eq (hparts operand List.mem_cons_self)]
  | assign name value => simp only [step, assign, hev.eq (hparts value List.mem_cons_self)]
  | setSetting name value => simp only [step, setSetting, hev.eq (hparts value List.mem_cons_self)]
  | unsetAttribute path key index =>
    obtain ⟨hpath, hindex⟩ := List.forall_mem_cons.1 hparts
    simp only [step, unsetAttribute_congr hev hpath hindex]
  | sequence statements => exact sequence_congr hev hparts .null
  | conditional condition body otherwise =>
    simp only [Node.parts, List.forall_mem_cons] at hparts
    obtain ⟨hcondition, hbody, hotherwise⟩ := hparts
    cases otherwise with
    | none => simp only [step, conditional, evalBool_congr hev hcondition, hev.eq hbody]
    | some other =>
      simp only [step, conditional, evalBool_congr hev hcondition, hev.eq hbody,
        hev.eq (hotherwise other List.mem_cons_self)]
  | whileLoop condition body =>
    simp only [Node.parts, List.forall_mem_cons] at hparts
    simp only [step, loop_congr hev none hparts.1 hparts.2.1 (List.forall_mem_nil _)]
  | forLoop init condition after body =>
    simp only [Node.parts, List.forall_mem_cons] at hparts
    obtain ⟨hinit, hcondition, hafter, hbody, -⟩ := hparts
    simp only [step, hev.eq hinit,
      loop_congr hev (some after) hcondition hbody (List.forall_mem_singleton.2 hafter)]
  | forRange name first last body =>
    simp only [Node.parts, List.forall_mem_cons] at hparts
    obtain ⟨hfirst, hlast, hbody, -⟩ := hparts
    simp only [step, forRange, evalInt_congr hev hfirst, evalInt_congr hev hlast, countUp_congr hev hbody]
  | forEach name items body =>
    simp only [Node.parts, List.forall_mem_cons] at hparts
    simp only [step, forEach, hev.eq hparts.1, forItems_congr hev hparts.2.1]
  | changeDir path => simp only [step, evalPath_congr hev (hparts path List.mem_cons_self)]
  | list listing =>
    obtain ⟨hpath, hfilters⟩ := List.forall_mem_cons.1 hparts
    simp only [step, list, evalTarget_congr hev hpath, listFilter_congr hev hfilters]
  | tree path depth =>
    obtain ⟨hpath, hdepth⟩ := List.forall_mem_cons.1 hparts
    cases depth with
    | none => simp only [step, tree, evalTarget_congr hev hpath]
    | some depth =>
      simp only [step, tree, evalTarget_congr hev hpath, evalInt_congr hev (hdepth depth List.mem_cons_self)]
  | get path =>
    have hpath := hparts path List.mem_cons_self
    simp only [step, get, evalPath_congr hev hpath, evalTargets_congr hev hpath]
  | getUnit path unit =>
    simp only [Node.parts, List.forall_mem_cons] at hparts
    simp only [step, getUnit, evalTarget_congr hev hparts.1, evalInt_congr hev hparts.2.1]
  | getSlot path slot =>
    simp only [Node.parts, List.forall_mem_cons] at hparts
    simp only [step, getSlot, evalTarget_congr hev hparts.1, evalText_congr hev hparts.2.1]
  | select path => simp only [step, evalTargets_congr hev (hparts path List.mem_cons_self)]
  | selectMany paths =>
    have hpaths : ∀ path ∈ paths, H path := hparts
    simp only [step, evalPaths_congr hev hpaths]
  | create creation => simp only [step, create, draft_congr hev hparts]
  | update path key values sharp =>
    obtain ⟨hpath, hvalues⟩ := List.forall_mem_cons.1 hparts
    simp only [step, update, updateTargets, evalAll_congr hev hvalues, evalTargets_congr hev hpath]
  | delete path => simp only [step, delete, evalTargets_congr hev (hparts path List.mem_cons_self)]
  | link source dest slot =>
    simp only [Node.parts, List.forall_mem_cons] at hparts
    obtain ⟨hsource, hdest, hslot⟩ := hparts
    simp only [step, link, evalTarget_congr hev hsource, evalTarget_congr hev hdest,
      evalOptionalText_congr hev hslot]
  | unlink source dest =>
    obtain ⟨hsource, hdest⟩ := List.forall_mem_cons.1 hparts
    cases dest with
    | none => simp only [step, unlink, evalTarget_congr hev hsource]
    | some dest =>
      simp only [step, unlink, evalTarget_congr hev hsource,
        evalTarget_congr hev (hdest dest List.mem_cons_self)]
  | copy source dest =>
    simp only [Node.parts, List.forall_mem_cons] at hparts
    simp only [step, copy, evalTarget_congr hev hparts.1, evalText_congr hev hparts.2.1]
  | draw path depth force =>
    obtain ⟨hpath, hdepth⟩ := List.forall_mem_cons.1 hparts
    cases depth with
    | none => simp only [step, draw, evalTargets_congr hev hpath]
    | some depth =>
      simp only [step, draw, evalTargets_congr hev hpath, evalInt_congr hev (hdepth depth List.mem_cons_self)]
  | undraw path =>
    cases path with
    | none => rfl
    | some path => simp only [step, undraw, evalTargets_congr hev (hparts path List.mem_cons_self)]
  | drawable path key => simp only [step, drawable, evalTarget_congr hev (hparts path List.mem_cons_self)]
  | ui command => simp only [step, ui, uiMessage_congr hev hparts]
  | camera command => simp only [step, camera, cameraMessage_congr hev hparts]
  | focus path =>
    cases path with
    | none => rfl
    | some path => simp only [step, focus, evalTarget_congr hev (hparts path List.mem_cons_self)]
  | connect address =>
    cases address with
    | none => rfl
    | some address => simp only [step, connect, evalText_congr hev (hparts address List.mem_cons_self)]
  | checkScript file => simp only [step, checkScript, evalText_congr hev (hparts file List.mem_cons_self)]
  | loadTemplate file => simp only [step, loadTemplate, evalText_congr hev (hparts file List.mem_cons_self)]

end Congruence

/-! ### Families of nodes -/

open Classical in
/-- The evaluator that refuses the nodes outside of a family. -/
noncomputable def within (H : Node → Prop) (ev : Node → Command β ν Value) (node : Node) :
    Command β ν Value :=
  if H node then ev node else throw .exhausted

theorem sameOn_within (hpart : ∀ {node part}, H node → part ∈ node.parts → H part)
    (ev : Node → Command β ν Value) : SameOn H ev (within H ev) :=
  ⟨hpart, fun h => (if_pos h).symm⟩

/-- What the nodes of a family keep and give, all nodes do if the others are refused. -/
theorem gives_within {P : Session β ν → Prop} {Q : Value → Prop}
    (h : ∀ node, H node → Gives P (ev node) Q) (node : Node) : Gives P (within H ev node) Q := by
  unfold within
  split
  · exact h node ‹H node›
  · exact .throw _

theorem step_within_plain [Hierarchy β] [Viewer ν] (ev : Node → Command β ν Value) (fuel : Nat)
    {node : Node} (h : node.Plain) : step (within Node.Plain ev) fuel node = step ev fuel node := by
  have halone := h.alone
  refine (step_congr (sameOn_within Node.Plain.part ev) fuel (fun part => h.part) ?_ ?_).symm
  · rintro name rfl
    cases halone
  · rintro file rfl
    cases halone

/-- An expression all the way down changes nothing: whatever holds before holds after it. -/
theorem keeps_execute_of_plain [Hierarchy β] [Viewer ν] {P : Session β ν → Prop} (fuel : Nat)
    {node : Node} (h : node.Plain) : Keeps P (execute fuel node) := by
  induction fuel generalizing node with
  | zero => exact .throw _
  | succ fuel ih =>
    rw [execute, ← step_within_plain _ _ h]
    exact keeps_step_of_isExpression (gives_within fun node => ih) fuel h.alone

theorem keeps_evalTargets_of_plain [Hierarchy β] [Viewer ν] {P : Session β ν → Prop} (fuel : Nat)
    {node : Node} (h : node.Plain) : Keeps P (evalTargets (execute fuel) node) := by
  rw [evalTargets_congr (sameOn_within Node.Plain.part _) h]
  exact keeps_evalTargets (gives_within fun _ => keeps_execute_of_plain fuel) node

theorem keeps_evalInt_of_plain [Hierarchy β] [Viewer ν] {P : Session β ν → Prop} (fuel : Nat)
    {node : Node} (h : node.Plain) (what : String) : Keeps P (evalInt (execute fuel) node what) := by
  rw [evalInt_congr (sameOn_within Node.Plain.part _) h]
  exact keeps_evalInt (gives_within fun _ => keeps_execute_of_plain fuel) node what

end Command

end TwinShell
