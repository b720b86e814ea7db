import TwinShell.Proofs.Session.Anchored
import TwinShell.Proofs.Session.Grouping
import TwinShell.Proofs.Session.Inside

/-!
# Variables never hold null

An assignment refuses null and lists, but a loop over an array gives its variable each item unasked. That no variable ever holds null is owed to the parser: what a loop goes through is an expression, and no expression gives null as long as no variable holds it. Lines, scripts and the bodies of aliases are all read by the parser, so the invariant is that the variables are free of null and the aliases are nodes that can be read.

To speak of the states in between, a run can be watched: it breaks off as soon as the session has a given property, before or after any node at any depth.
-/

namespace TwinShell

/-! ### Values -/

namespace Value

mutual

/-- Whether a value is null, or a list with null in it at any depth. -/
def holdsNull : Value → Bool
  | .null => true
  | .list items => anyHoldsNull items
  | .bool _ | .int _ | .float _ | .str _ | .vector _ | .object _ => false

/-- Whether one of some values holds null. -/
def anyHoldsNull : List Value → Bool
  | [] => false
  | value :: rest => holdsNull value || anyHoldsNull rest

end

/-- A value that is not null and holds no null. -/
abbrev NullFree (value : Value) : Prop := value.holdsNull = false

theorem nullFree_list_iff {items : List Value} : (list items).NullFree ↔ ∀ item ∈ items, item.NullFree := by
  rw [NullFree, holdsNull]
  induction items with
  | nil => simp [anyHoldsNull]
  | cons value rest ih => simp [anyHoldsNull, ih]

theorem nullFree_of_isAssignable {value : Value} (h : value.isAssignable) : value.NullFree := by
  cases value with
  | null | list => cases h
  | _ => rfl

theorem nullFree_toValue (n : Number) : n.toValue.NullFree := by
  cases n <;> rfl

theorem nullFree_arith {op : ArithOp} {left right value : Value} (h : arith op left right = .ok value) :
    value.NullFree := by
  unfold arith at h
  split at h
  · rename_i a b _ _
    cases hresult : Number.arith op a b with
    | error e =>
      rw [hresult] at h
      cases h
    | ok n =>
      rw [hresult] at h
      cases h
      exact nullFree_toValue n
  · split at h
    · split at h
      · cases h
        rfl
      · cases h
    · cases h

end Value

/-! ### Scripts -/

/-- The statements of a script are read by the parser. -/
theorem Script.parsed_of_mem_read {text : String} {statement : Statement Node}
    (h : statement ∈ (Script.read text).statements) : statement.content.Parsed := by
  rw [Script.read, Script.foldr_add] at h
  obtain ⟨heading, -, hstatement⟩ := List.mem_filterMap.1 h
  unfold Script.statementOf? at hstatement
  split at hstatement
  · cases hstatement
  · rename_i node _ hparse
    cases hstatement
    exact Language.parsed_of_parse hparse
  · cases hstatement

namespace Session

variable {β ν : Type}

/-- No variable holds null. -/
def NullFree (s : Session β ν) : Prop := s.env.bindings.All Value.NullFree

/-- No variable holds null, and the aliases are nodes that the parser can give. -/
structure Tidy (s : Session β ν) : Prop where
  bindings : s.NullFree
  aliases : s.env.aliases.All Node.Parsed

theorem Tidy.of_eq {s s' : Session β ν} (h : s.Tidy) (hbindings : s'.env.bindings = s.env.bindings)
    (haliases : s'.env.aliases = s.env.aliases) : s'.Tidy := by
  refine ⟨?_, haliases ▸ h.aliases⟩
  rw [NullFree, hbindings]
  exact h.bindings

end Session

namespace Command

open Session (Tidy)

variable {β ν α : Type}

/-! ### Steps -/

/-- A step that looks at the environment first. -/
theorem getEnv_bind (f : Environment → Command β ν α) (s : Session β ν) : (getEnv >>= f) s = f s.env s := rfl

theorem keepsTidy_onHierarchy (op : EStateM HierarchyError β α) :
    Keeps Tidy (onHierarchy op : Command β ν α) := by
  intro s hs
  simp only [onHierarchy]
  cases op s.hierarchy with
  | ok a hierarchy => exact ⟨hs.of_eq rfl rfl, trivial⟩
  | error e hierarchy => exact hs.of_eq rfl rfl

theorem keepsTidy_goTo (path : String) : Keeps Tidy (modifyEnv (·.goTo path) : Command β ν Unit) :=
  fun _ hs => ⟨hs.of_eq rfl rfl, trivial⟩

theorem keepsTidy_setSelection (paths : List String) :
    Keeps Tidy (modifyEnv fun env => { env with selection := paths } : Command β ν Unit) :=
  fun _ hs => ⟨hs.of_eq rfl rfl, trivial⟩

theorem keepsTidy_leave (path : String) : Keeps Tidy (modifyEnv (·.leave path) : Command β ν Unit) :=
  fun _ hs => ⟨hs.of_eq rfl rfl, trivial⟩

theorem keepsTidy_setVariable (name : String) {value : Value} (h : value.NullFree) :
    Keeps Tidy (modifyEnv (·.setVariable name value) : Command β ν Unit) :=
  fun _ hs => ⟨⟨hs.bindings.insert h, hs.aliases⟩, trivial⟩

theorem keepsTidy_setAlias (name : String) {body : Node} (h : body.Parsed) : Keeps Tidy
    (modifyEnv fun env => { env with aliases := env.aliases.insert name body } : Command β ν Unit) :=
  fun _ hs => ⟨⟨hs.bindings, hs.aliases.insert h⟩, trivial⟩

/-- The items of an array without null can be given to a variable. -/
theorem keepsTidy_forEach {ev : Node → Command β ν Value} (hev : ∀ node, Keeps Tidy (ev node))
    {array : Node} (harray : Gives Tidy (ev array) Value.NullFree) (name : String) (body : Node) :
    Keeps Tidy (forEach ev name array body) := by
  apply harray.bind
  intro value hvalue
  split
  · refine keeps_forItems hev (fun item hitem => keepsTidy_setVariable name ?_) body
    obtain ⟨x, -, rfl⟩ := List.mem_map.1 hitem
    rfl
  · refine keeps_forItems hev (fun item hitem => keepsTidy_setVariable name ?_) body
    exact Value.nullFree_list_iff.1 hvalue item hitem
  · exact .fail _

/-- The body of an alias is not inside the node, but in the session. -/
theorem keepsTidy_callAlias {ev : Node → Command β ν Value}
    (hev : ∀ node, node.Parsed → Keeps Tidy (ev node)) (name : String) :
    Keeps Tidy (callAlias ev name) := by
  intro s hs
  simp only [callAlias, getEnv_bind]
  cases hget : s.env.aliases.get? name with
  | some body => exact hev body (hs.aliases name body hget) s hs
  | none => exact hs

/-! ### Values of expressions -/

theorem gives_lookUp (name : String) : Gives Tidy (lookUp name : Command β ν Value) Value.NullFree := by
  intro s hs
  simp only [lookUp, getEnv_bind]
  cases hget : s.env.bindings.get? name with
  | some value => exact ⟨hs, hs.bindings name value hget⟩
  | none => exact hs

theorem gives_evalAll {ev : Node → Command β ν Value} (hev : ∀ node, Gives Tidy (ev node) Value.NullFree)
    (nodes : List Node) : Gives Tidy (evalAll ev nodes) fun values => ∀ value ∈ values, value.NullFree := by
  induction nodes with
  | nil => exact .pure nofun
  | cons node rest ih =>
    apply (hev node).bind
    intro value hvalue
    apply ih.bind
    intro values hvalues
    exact .pure (List.forall_mem_cons.2 ⟨hvalue, hvalues⟩)

theorem gives_filled (template : String) (args : List Value) :
    Gives Tidy (filled template args : Command β ν Value) Value.NullFree := by
  unfold filled
  split
  · exact .pure rfl
  · exact .throw _
  · exact .fail _

theorem nullFree_item {array value : Value} {index : Int64} (harray : array.NullFree)
    (h : item array index = .ok value) : value.NullFree := by
  unfold item at h
  split at h
  · split at h
    · cases h
      rfl
    · cases h
  · rename_i items
    split at h
    · rename_i hfound
      cases h
      split at hfound
      · exact Value.nullFree_list_iff.1 harray value (List.mem_of_getElem? hfound)
      · cases hfound
    · cases h
  · cases h

theorem nullFree_arrayValue {items : List Value} (h : ∀ item ∈ items, item.NullFree) :
    (arrayValue items).NullFree := by
  unfold arrayValue
  split
  · rfl
  · exact Value.nullFree_list_iff.2 h

theorem nullFree_binary {op : BinaryOp} {left right value : Value} (h : binary op left right = .ok value) :
    value.NullFree := by
  have hlogic : ∀ {f : Bool → Bool → Bool}, binary.logic left right f = .ok value → value.NullFree := by
    intro f h
    unfold binary.logic at h
    split at h
    · cases h
      rfl
    · cases h
  cases op with
  | arith op =>
    simp only [binary] at h
    cases hresult : Value.arith op left right with
    | error e =>
      rw [hresult] at h
      cases h
    | ok result =>
      rw [hresult] at h
      cases h
      exact Value.nullFree_arith hresult
  | compare op =>
    simp only [binary] at h
    split at h
    · cases h
      rfl
    · cases h
  | equal | notEqual =>
    cases h
    rfl
  | and | or => exact hlogic h

theorem nullFree_negated {operand value : Value} (h : negated operand = .ok value) : value.NullFree := by
  unfold negated at h
  split at h
  · rename_i n _
    cases hresult : n.negate with
    | error e =>
      rw [hresult] at h
      cases h
    | ok result =>
      rw [hresult] at h
      cases h
      exact Value.nullFree_toValue result
  · cases h

/-! ### Commands -/

variable [Hierarchy β]

theorem tidy_steady : Steady (Tidy (β := β) (ν := ν)) where
  output _ _ h := h.of_eq rfl rfl
  viewer _ _ h := h.of_eq rfl rfl
  reads _ _ h := h.of_eq rfl rfl
  getObject _ := keepsTidy_onHierarchy _
  getChildren _ _ := keepsTidy_onHierarchy _
  updateObject _ _ := keepsTidy_onHierarchy _
  settings _ _ h := h.of_eq rfl rfl
  exitRequested _ _ h := h.of_eq rfl rfl
  scriptDepth _ _ h := h.of_eq rfl rfl

theorem tidy_stable : Stable (Tidy (β := β) (ν := ν)) := tidy_steady.toStable

theorem keepsTidy_changeDir (target : String) : Keeps Tidy (changeDir target : Command β ν Value) := by
  unfold changeDir
  extract_lets goTo
  have hgoTo : ∀ target, Keeps Tidy (goTo target) := fun target =>
    (keeps_requirePath tidy_stable target).bind fun _ => (keepsTidy_goTo target).bind fun _ => .pure trivial
  refine .ite (fun _ => Keeps.getEnv.bind fun env => ?_) fun _ => hgoTo target
  split
  · exact hgoTo _
  · exact Keeps.bind (.fail _) hgoTo

theorem keepsTidy_select (targets : List String) : Keeps Tidy (select targets : Command β ν Value) := by
  apply (Keeps.forM fun target _ => keeps_requirePath tidy_stable target).bind
  intro _
  extract_lets rest
  have hrest : ∀ r, Keeps Tidy (rest r) := fun _ =>
    (keepsTidy_setSelection targets).bind fun _ => (keeps_emit tidy_stable _).bind fun _ => .pure trivial
  split
  · exact (keepsTidy_goTo _).bind hrest
  · exact hrest ()

theorem keepsTidy_deleteEach [Viewer ν] (targets : List String) :
    Keeps Tidy (deleteEach targets : Command β ν (List String)) := by
  have hone (target : String) : Keeps Tidy (deleteOne target : Command β ν (List String)) := by
    apply (keepsTidy_onHierarchy _).bind
    intro deleted
    apply (keepsTidy_leave target).bind
    intro _
    apply (keeps_notify tidy_stable _).bind
    intro _
    exact (keeps_emitAll tidy_stable _).bind fun _ => .pure trivial
  induction targets with
  | nil => exact .pure trivial
  | cons target rest ih => exact (hone target).bind fun _ => ih.bind fun _ => .pure trivial

theorem keepsTidy_deleteSelection [Viewer ν] : Keeps Tidy (deleteSelection : Command β ν Value) := by
  apply Keeps.getEnv.bind
  intro env
  apply (keepsTidy_setSelection []).bind
  intro _
  exact .ite (fun _ => .fail _) fun _ => (keepsTidy_deleteEach _).bind fun _ => .pure trivial

section Nested

variable {ev : Node → Command β ν Value} (hev : ∀ node, Keeps Tidy (ev node))
include hev

theorem keepsTidy_link (source dest : Node) (slot : Option Node) :
    Keeps Tidy (link ev source dest slot) := by
  apply (keeps_evalTarget hev source).bind
  intro source
  apply (keeps_evalTarget hev dest).bind
  intro dest
  apply (keeps_evalOptionalText hev slot).bind
  intro slot
  exact (keepsTidy_onHierarchy _).bind fun _ => (keeps_emit tidy_stable _).bind fun _ => .pure trivial

theorem keepsTidy_copy (source dest : Node) : Keeps Tidy (copy ev source dest) := by
  apply (keeps_evalTarget hev source).bind
  intro source
  apply (keeps_evalText hev dest).bind
  intro dest
  extract_lets collection rest
  have hrest : ∀ target, Keeps Tidy (rest target) := by
    intro target
    refine .ite (fun _ => .fail _) fun _ => (keepsTidy_onHierarchy _).bind fun object => ?_
    extract_lets fields done
    have hdone : ∀ r, Keeps Tidy (done r) := fun _ =>
      (keeps_emit tidy_stable _).bind fun _ => .pure trivial
    exact .ite (fun _ => (keepsTidy_onHierarchy _).bind fun _ => hdone ()) fun _ =>
      (keepsTidy_onHierarchy _).bind hdone
  clear_value rest
  refine .ite (fun _ => .fail _) fun _ => .ite (fun _ => ?_) fun _ => Keeps.bind (.pure trivial) hrest
  exact Keeps.bind (Keeps.getEnv.bind fun _ => .pure trivial) hrest

theorem keepsTidy_loadTemplate (file : Node) : Keeps Tidy (loadTemplate ev file) := by
  apply (keeps_evalText hev file).bind
  intro file
  apply (keeps_readFile tidy_stable file).bind
  intro text
  split
  · exact .fail _
  · split
    · exact .fail _
    · exact (keepsTidy_onHierarchy _).bind fun _ => (keeps_emit tidy_stable _).bind fun _ => .pure trivial

variable [Viewer ν]

theorem keepsTidy_create (creation : Creation Node) : Keeps Tidy (create ev creation) := by
  apply (keeps_draft tidy_stable hev creation).bind
  intro draft
  apply (keepsTidy_onHierarchy _).bind
  intro object
  apply (keeps_isDrawn object).bind
  intro drawn
  extract_lets rest
  have hrest : ∀ r, Keeps Tidy (rest r) := fun _ =>
    (keeps_emit tidy_stable _).bind fun _ => .pure trivial
  exact .ite (fun _ => (keeps_notify tidy_stable _).bind hrest) fun _ => hrest ()

theorem keepsTidy_unlink (source : Node) (dest : Option Node) : Keeps Tidy (unlink ev source dest) := by
  apply (keeps_evalTarget hev source).bind
  intro source
  extract_lets rest
  have hrest : ∀ dest, Keeps Tidy (rest dest) := by
    intro dest
    apply (keepsTidy_onHierarchy _).bind
    intro _
    apply (keeps_notify tidy_stable _).bind
    intro _
    exact (keeps_emit tidy_stable _).bind fun _ => .pure trivial
  cases dest with
  | none => exact hrest none
  | some dest => exact (keeps_evalTarget hev dest).bind fun dest => hrest (some dest)

theorem keepsTidy_focus (path : Option Node) : Keeps Tidy (focus ev path) := by
  apply keeps_requireViewer.bind
  intro _
  cases path with
  | none => exact (keeps_send tidy_stable _).bind fun _ => .pure trivial
  | some path =>
    apply (keeps_evalTarget hev path).bind
    intro target
    apply (keeps_requirePath tidy_stable target).bind
    intro _
    apply (keeps_send tidy_stable _).bind
    intro _
    exact (keepsTidy_goTo target).bind fun _ => .pure trivial

end Nested

/-! ### Nodes -/

/-- Every node keeps a session tidy, if the nodes inside it do, a loop goes through an array without null, and an alias is defined as a node that can be read. -/
theorem keepsTidy_step [Viewer ν] {ev : Node → Command β ν Value} (hev : ∀ node, Keeps Tidy (ev node))
    (fuel : Nat) {node : Node} (hitems : ∀ array ∈ node.items?, Gives Tidy (ev array) Value.NullFree)
    (hparts : ∀ part ∈ node.parts, part.Parsed) : Keeps Tidy (step ev fuel node) := by
  have hstable := tidy_stable (β := β) (ν := ν)
  by_cases hnode : node.isSteady
  · exact keeps_step_of_steady tidy_steady hev fuel hnode
  cases node with
  | assign name value =>
    exact keeps_assign hev
      (fun value hvalue => keepsTidy_setVariable name (Value.nullFree_of_isAssignable hvalue)) value
  | defineAlias name body =>
    exact (keepsTidy_setAlias name (hparts body List.mem_cons_self)).bind fun _ => .pure trivial
  | unsetVariable name =>
    exact keeps_unsetVariable fun _ hs => ⟨⟨hs.bindings.erase, hs.aliases⟩, trivial⟩
  | unsetAlias name => exact keeps_unsetAlias fun _ hs => ⟨⟨hs.bindings, hs.aliases.erase⟩, trivial⟩
  | forRange name first last body =>
    exact keeps_forRange hev (fun n => keepsTidy_setVariable name rfl) first last body
  | forEach name array body => exact keepsTidy_forEach hev (hitems array rfl) name body
  | changeDir path => exact (keeps_evalPath hev path).bind keepsTidy_changeDir
  | select path => exact (keeps_evalTargets hev path).bind keepsTidy_select
  | selectMany paths => exact (keeps_evalPaths hev paths).bind keepsTidy_select
  | clearSelection =>
    exact (keepsTidy_setSelection []).bind fun _ => (keeps_emit hstable _).bind fun _ => .pure trivial
  | create creation => exact keepsTidy_create hev creation
  | delete path =>
    exact (keeps_evalTargets hev path).bind fun _ => (keepsTidy_deleteEach _).bind fun _ => .pure trivial
  | deleteSelection => exact keepsTidy_deleteSelection
  | link source dest slot => exact keepsTidy_link hev source dest slot
  | unlink source dest => exact keepsTidy_unlink hev source dest
  | copy source dest => exact keepsTidy_copy hev source dest
  | focus path => exact keepsTidy_focus hev path
  | loadTemplate file => exact keepsTidy_loadTemplate hev file
  | _ => exact absurd rfl hnode

/-- No expression gives null, if no expression inside it does. -/
theorem gives_step_expression [Viewer ν] {ev : Node → Command β ν Value}
    (hev : ∀ node, Gives Tidy (ev node) Value.NullFree) (fuel : Nat) {node : Node}
    (hnode : node.isExpression) : Gives Tidy (step ev fuel node) Value.NullFree := by
  have hkeeps (node : Node) : Keeps Tidy (ev node) := (hev node).keeps
  cases node with
  | literal value =>
    refine .pure ?_
    cases value with
    | null | vector | object | list => cases hnode
    | _ => rfl
  | symbol name => exact gives_lookUp name
  | element name index =>
    apply (gives_lookUp name).bind
    intro array harray
    apply (keeps_evalInt hkeeps index _).bind
    intro index
    exact .settle fun value hvalue => nullFree_item harray hvalue
  | array items => exact (gives_evalAll hev items).bind fun _ hvalues => .pure (nullFree_arrayValue hvalues)
  | interpolation template args => exact (keeps_evalAll hkeeps args).bind fun _ => gives_filled template _
  | formatted template args =>
    apply (keeps_evalText hkeeps template).bind
    intro template
    exact (keeps_evalAll hkeeps args).bind fun _ => gives_filled template _
  | path raw => exact (keeps_evalPath hkeeps _).bind fun _ => .pure rfl
  | binary op left right =>
    exact (hkeeps left).bind fun _ => (hkeeps right).bind fun _ => .settle fun _ => nullFree_binary
  | negate operand => exact (hkeeps operand).bind fun _ => .settle fun _ => nullFree_negated
  | not operand =>
    apply (hkeeps operand).bind
    intro value
    split
    · exact .pure rfl
    · exact .fail _
  | _ => cases hnode

/-! ### Watched runs -/

/-- A step that breaks off where the session has a property, before or after it. -/
def watched (stop : Session β ν → Bool) (c : Command β ν α) : Command β ν α := fun s =>
  if stop s then .error .exhausted s
  else
    match c s with
    | .ok a s' => if stop s' then .error .exhausted s' else .ok a s'
    | .error e s' => .error e s'

/-- Evaluates a node like `execute`, but breaks off where the session has a property, before or after any node at any depth. -/
def executeUntil [Viewer ν] (stop : Session β ν → Bool) : Nat → Node → Command β ν Value
  | 0, _ => throw .exhausted
  | fuel + 1, node => watched stop (step (executeUntil stop fuel) fuel node)

omit [Hierarchy β] in
theorem Gives.watched {P : Session β ν → Prop} {Q : α → Prop} {c : Command β ν α} (h : Gives P c Q)
    (stop : Session β ν → Bool) : Gives P (watched stop c) Q := by
  intro s hs
  have hpost := h s hs
  unfold Command.watched
  by_cases hstart : stop s
  · rw [if_pos hstart]
    exact hs
  rw [if_neg hstart]
  cases hresult : c s with
  | error e s' =>
    rw [hresult] at hpost
    exact hpost
  | ok a s' =>
    rw [hresult] at hpost
    by_cases hend : stop s'
    · simp only [hend, if_true]
      exact hpost.1
    · simp only [hend]
      exact hpost

variable [Viewer ν] (stop : Session β ν → Bool) (fuel : Nat)

theorem executeUntil_never (node : Node) :
    executeUntil (fun _ => false) fuel node = (execute fuel node : Command β ν Value) := by
  induction fuel generalizing node with
  | zero => rfl
  | succ fuel ih =>
    have hsame : executeUntil (fun _ => false) fuel = (execute fuel : Node → Command β ν Value) :=
      funext ih
    funext s
    rw [executeUntil, execute, hsame, watched]
    cases step (execute fuel) fuel node s <;> rfl

theorem gives_executeUntil_plain {node : Node} (h : node.Plain) :
    Gives Tidy (executeUntil stop fuel node) Value.NullFree := by
  induction fuel generalizing node with
  | zero => exact .throw _
  | succ fuel ih =>
    rw [executeUntil, ← step_within_plain _ _ h]
    exact (gives_step_expression (gives_within fun node => ih) fuel h.alone).watched stop

/-- Whatever the parser can give keeps a session tidy. -/
theorem keepsTidy_executeUntil {node : Node} (h : node.Parsed) :
    Keeps Tidy (executeUntil stop fuel node) := by
  induction fuel generalizing node with
  | zero => exact .throw _
  | succ fuel ih =>
    rw [executeUntil]
    refine Gives.watched ?_ stop
    have hsameOn := sameOn_within Node.Parsed.part (executeUntil stop fuel)
    have hwithin : ∀ node, Keeps Tidy (within Node.Parsed (executeUntil stop fuel) node) :=
      gives_within fun node => ih
    -- An alias and a script run nodes that are not inside, but were read by the parser too.
    by_cases halias : ∃ name, node = .callAlias name
    · obtain ⟨name, rfl⟩ := halias
      exact keepsTidy_callAlias (fun node => ih) name
    by_cases hscript : ∃ file, node = .runScript file
    · obtain ⟨file, rfl⟩ := hscript
      have hfile := h.part List.mem_cons_self
      have hsame := runScript_congr hsameOn hfile fun _ _ => Script.parsed_of_mem_read
      rw [step, hsame]
      exact keeps_runScript tidy_steady hwithin file
    rw [step_congr hsameOn fuel (fun part => h.part) (fun name hname => halias ⟨name, hname⟩)
      fun file hfile => hscript ⟨file, hfile⟩]
    refine keepsTidy_step hwithin fuel (fun array harray => ?_) fun part => h.part
    have hplain := h.items harray
    rw [← hsameOn.eq (.expression hplain)]
    exact gives_executeUntil_plain stop fuel hplain

end Command

namespace Session

variable {ν : Type} [Viewer ν] (stop : Session Store ν → Bool)

/-- The session after a command line, or where the run of it breaks off. -/
def afterLineUntil (s : Session Store ν) (line : String) : Session Store ν :=
  match Language.parse line with
  | .error _ => s
  | .ok node =>
    match Command.executeUntil stop defaultFuel node s with
    | .ok _ s' => s'
    | .error _ s' => s'

/-- The session after command lines, run one after another, or where the run of them breaks off. -/
def afterLinesUntil (s : Session Store ν) : List String → Session Store ν
  | [] => s
  | line :: rest =>
    let s' := s.afterLineUntil stop line
    if stop s' then s' else s'.afterLinesUntil rest

theorem afterLineUntil_never (s : Session Store ν) (line : String) :
    s.afterLineUntil (fun _ => false) line = s.afterLine line := by
  have hsame (node : Node) : Command.executeUntil (fun _ => false) defaultFuel node =
      (eval node : Command Store ν Value) := Command.executeUntil_never defaultFuel node
  unfold afterLineUntil afterLine run
  cases Language.parse line with
  | error e => rfl
  | ok node =>
    simp only [hsame]
    generalize eval node s = result
    cases result with
    | ok value s' => rfl
    | error stop s' => rfl

theorem afterLinesUntil_never (s : Session Store ν) (lines : List String) :
    s.afterLinesUntil (fun _ => false) lines = s.afterLines lines := by
  induction lines generalizing s with
  | nil => rfl
  | cons line rest ih =>
    rw [afterLinesUntil, afterLineUntil_never]
    exact ih _

theorem tidy_afterLineUntil {s : Session Store ν} (hs : s.Tidy) (line : String) :
    (s.afterLineUntil stop line).Tidy := by
  unfold afterLineUntil
  cases hparse : Language.parse line with
  | error e => exact hs
  | ok node =>
    have hpost := Command.keepsTidy_executeUntil stop defaultFuel (Language.parsed_of_parse hparse) s hs
    dsimp only
    generalize Command.executeUntil stop defaultFuel node s = result at hpost ⊢
    cases result with
    | ok value s' => exact hpost.1
    | error e s' => exact hpost

theorem tidy_afterLinesUntil {s : Session Store ν} (hs : s.Tidy) (lines : List String) :
    (s.afterLinesUntil stop lines).Tidy := by
  induction lines generalizing s with
  | nil => exact hs
  | cons line rest ih =>
    have hline := tidy_afterLineUntil stop hs line
    unfold afterLinesUntil
    extract_lets s'
    split
    · exact hline
    · exact ih hline

/-- No variable ever holds null: whatever lines are run in a new session over a store, none does after them, and none does where the run of them is broken off. -/
theorem nullFree_throughout (store : Store) (viewer : ν) (files : Files) (lines : List String) :
    (afterLines { hierarchy := store, viewer, files } lines).NullFree ∧
    ∀ stop : Session Store ν → Bool,
      (afterLinesUntil stop { hierarchy := store, viewer, files } lines).NullFree := by
  have hfresh : Tidy ({ hierarchy := store, viewer, files } : Session Store ν) := ⟨nofun, nofun⟩
  have hall (stop : Session Store ν → Bool) := (tidy_afterLinesUntil stop hfresh lines).bindings
  refine ⟨?_, hall⟩
  rw [← afterLinesUntil_never]
  exact hall fun _ => false

end Session

end TwinShell
