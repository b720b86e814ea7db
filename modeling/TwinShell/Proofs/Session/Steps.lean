import TwinShell.Proofs.Language.Shapes
import TwinShell.Session.Eval

/-!
# What steps keep

An invariant of sessions has to survive a step whether it succeeds or fails, because a step that fails keeps the changes it made before. `Gives P c Q` says this of the invariant `P` and the step `c`, and that a result of the step has the property `Q`. Steps are taken apart along their binds; the evaluator for nested nodes only enters through what it keeps.
-/

namespace TwinShell

namespace Command

variable {β ν α γ : Type} {P : Session β ν → Prop} {Q : α → Prop} {R : γ → Prop}

/-- The step keeps an invariant, and its result has a property. -/
def Gives (P : Session β ν → Prop) (c : Command β ν α) (Q : α → Prop) : Prop :=
  ∀ s, P s → match c s with
    | .ok a s' => P s' ∧ Q a
    | .error _ s' => P s'

/-- The step keeps an invariant. -/
abbrev Keeps (P : Session β ν → Prop) (c : Command β ν α) : Prop := Gives P c fun _ => True

/-- Whatever the viewer answers, telling it does not fail and changes nothing else. -/
theorem notify_eq_ok [Viewer ν] (message : Json) (s : Session β ν) :
    ∃ viewer, notify message s = .ok () { s with viewer } := by
  unfold notify
  split
  · split
    · exact ⟨_, rfl⟩
    · exact ⟨_, rfl⟩
  · exact ⟨s.viewer, rfl⟩

/-! ### Rules -/

section Binds

variable {x : Command β ν α} {f : α → Command β ν γ} {s s' : Session β ν}

theorem bind_of_ok {a : α} (h : x s = .ok a s') : (x >>= f) s = f a s' := by
  simp only [Bind.bind, EStateM.bind, h]

theorem bind_of_error {stop : Stop} (h : x s = .error stop s') : (x >>= f) s = .error stop s' := by
  simp only [Bind.bind, EStateM.bind, h]

end Binds

theorem Gives.of_ok {c : Command β ν α} {s s' : Session β ν} {a : α} (h : Gives P c Q) (hs : P s)
    (hok : c s = .ok a s') : P s' ∧ Q a := by
  have hpost := h s hs
  rwa [hok] at hpost

theorem Gives.pure {a : α} (h : Q a) : Gives P (Pure.pure a) Q := fun _ hs => ⟨hs, h⟩

theorem Gives.throw (stop : Stop) : Gives P (MonadExcept.throw stop) Q := fun _ hs => hs

theorem Gives.fail (e : EvalError) : Gives P (fail e) Q := .throw _

theorem Gives.bind {x : Command β ν α} {f : α → Command β ν γ} (hx : Gives P x Q)
    (hf : ∀ a, Q a → Gives P (f a) R) : Gives P (x >>= f) R := by
  intro s hs
  have hfirst := hx s hs
  simp only [Bind.bind, EStateM.bind]
  cases h : x s with
  | error stop s' =>
    rw [h] at hfirst
    exact hfirst
  | ok a s' =>
    rw [h] at hfirst
    exact hf a hfirst.2 s' hfirst.1

theorem Keeps.bind {x : Command β ν α} {f : α → Command β ν γ} (hx : Keeps P x)
    (hf : ∀ a, Gives P (f a) R) : Gives P (x >>= f) R := Gives.bind hx fun a _ => hf a

theorem Gives.imp {Q' : α → Prop} {c : Command β ν α} (h : Gives P c Q) (hQ : ∀ a, Q a → Q' a) :
    Gives P c Q' := by
  intro s hs
  have hpost := h s hs
  split
  · rename_i a s' heq
    rw [heq] at hpost
    exact ⟨hpost.1, hQ a hpost.2⟩
  · rename_i stop s' heq
    rw [heq] at hpost
    exact hpost

theorem Gives.keeps {c : Command β ν α} (h : Gives P c Q) : Keeps P c := h.imp fun _ _ => trivial

theorem Gives.ite {p : Prop} [Decidable p] {x y : Command β ν α} (hx : p → Gives P x Q)
    (hy : ¬p → Gives P y Q) : Gives P (if p then x else y) Q := by
  split
  · exact hx ‹p›
  · exact hy ‹¬p›

/-- A step that only checks: what it has checked holds of the session from which the next step starts. -/
theorem Gives.checked {C : Session β ν → Prop} {x : Command β ν Unit} {f : Unit → Command β ν α}
    (hx : ∀ s, x s = .ok () s ∧ C s ∨ ∃ stop, x s = .error stop s)
    (hf : ∀ s, P s → C s → match f () s with
      | .ok a s' => P s' ∧ Q a
      | .error _ s' => P s') : Gives P (x >>= f) Q := by
  intro s hs
  simp only [Bind.bind, EStateM.bind]
  rcases hx s with ⟨hok, hchecked⟩ | ⟨stop, hstop⟩
  · rw [hok]
    exact hf s hs hchecked
  · rw [hstop]
    exact hs

theorem Keeps.forM {f : α → Command β ν PUnit} {l : List α} (h : ∀ a ∈ l, Keeps P (f a)) :
    Keeps P (l.forM f) := by
  induction l with
  | nil => exact .pure trivial
  | cons a l ih =>
    exact (h a List.mem_cons_self).bind fun _ => ih fun b hb => h b (List.mem_cons_of_mem _ hb)

theorem Gives.settle {result : Except EvalError α} (h : ∀ a, result = .ok a → Q a) :
    Gives (β := β) (ν := ν) P (settle result) Q := by
  cases result with
  | ok a => exact .pure (h a rfl)
  | error e => exact .fail e

theorem Keeps.settle (result : Except EvalError α) : Keeps (β := β) (ν := ν) P (settle result) :=
  Gives.settle fun _ _ => trivial

theorem Keeps.get : Keeps P (MonadState.get : Command β ν (Session β ν)) := fun _ hs => ⟨hs, trivial⟩

theorem Keeps.getEnv : Keeps P (getEnv : Command β ν Environment) :=
  Keeps.get.bind fun _ => .pure trivial

theorem keeps_isDrawn (object : Object) : Keeps (β := β) (ν := ν) P (isDrawn object) :=
  Keeps.getEnv.bind fun _ => .pure trivial

theorem keeps_requireViewer [Viewer ν] : Keeps (β := β) P requireViewer := by
  refine Keeps.bind (Keeps.get.bind fun _ => .pure trivial) fun connected => ?_
  exact .ite (fun _ => .fail _) fun _ => .pure trivial

theorem keeps_sortedBy (key : String) (entries : List (String × Object)) :
    Keeps (β := β) (ν := ν) P (sortedBy key entries) := by
  simp only [sortedBy]
  split
  · exact .pure trivial
  · exact .throw _

theorem keeps_treeChildren {below : String → String → Command β ν (List String)}
    (hbelow : ∀ child indent, Keeps P (below child indent)) (indent : String)
    (children : List (String × Object)) : Keeps P (treeChildren below indent children) := by
  induction children with
  | nil => exact .pure trivial
  | cons child rest ih => exact (hbelow _ _).bind fun _ => ih.bind fun _ => .pure trivial

theorem keeps_exiting : Keeps P (exiting : Command β ν Bool) := Keeps.get.bind fun _ => .pure trivial

theorem keeps_lookUp (name : String) : Keeps (β := β) (ν := ν) P (lookUp name) := by
  apply Keeps.getEnv.bind
  intro env
  split
  · exact .pure trivial
  · exact .fail _

theorem keeps_filled (template : String) (args : List Value) :
    Keeps (β := β) (ν := ν) P (filled template args) := by
  unfold filled
  split
  · exact .pure trivial
  · exact .throw _
  · exact .fail _

theorem keeps_oneOf (text : String) (allowed : List String) (what : String) :
    Keeps (β := β) (ν := ν) P (oneOf text allowed what) :=
  .ite (fun _ => .pure trivial) fun _ => .fail _

theorem keeps_unsetVariable {name : String}
    (h : Keeps P (modifyEnv fun env => { env with bindings := env.bindings.erase name })) :
    Keeps P (unsetVariable name) := by
  apply Keeps.getEnv.bind
  intro env
  exact .ite (fun _ => h.bind fun _ => .pure trivial) fun _ => .fail _

theorem keeps_unsetAlias {name : String}
    (h : Keeps P (modifyEnv fun env => { env with aliases := env.aliases.erase name })) :
    Keeps P (unsetAlias name) := by
  apply Keeps.getEnv.bind
  intro env
  exact .ite (fun _ => h.bind fun _ => .pure trivial) fun _ => .fail _

/-! ### Nested nodes -/

section Nested

variable {ev : Node → Command β ν Value} (hev : ∀ node, Keeps P (ev node))
include hev

theorem keeps_evalAll (nodes : List Node) : Keeps P (evalAll ev nodes) := by
  induction nodes with
  | nil => exact .pure trivial
  | cons node rest ih => exact (hev node).bind fun _ => ih.bind fun _ => .pure trivial

theorem keeps_evalText (node : Node) : Keeps P (evalText ev node) := by
  apply (hev node).bind
  intro value
  split
  · exact .fail _
  · exact .pure trivial

theorem keeps_evalRawPath (node : Node) : Keeps P (evalRawPath ev node) := by
  rw [evalRawPath.eq_def]
  split
  · exact keeps_evalText hev _
  · exact keeps_evalText hev _

theorem keeps_evalBool (node : Node) (what : String) : Keeps P (evalBool ev node what) := by
  apply (hev node).bind
  intro value
  split
  · exact .pure trivial
  · exact .fail _

theorem keeps_evalInt (node : Node) (what : String) : Keeps P (evalInt ev node what) := by
  apply (hev node).bind
  intro value
  split
  · exact .pure trivial
  · exact .fail _

theorem keeps_evalFloat (node : Node) (what : String) : Keeps P (evalFloat ev node what) := by
  apply (hev node).bind
  intro value
  split
  · exact .pure trivial
  · exact .fail _

theorem keeps_evalVector (node : Node) (what : String) (length : Nat) :
    Keeps P (evalVector ev node what length) :=
  (hev node).bind fun _ => Keeps.settle _

theorem keeps_listFilter (filters : List (String × Node)) (filter : Filter) :
    Keeps P (listFilter ev filter filters) := by
  induction filters generalizing filter with
  | nil => exact .pure trivial
  | cons entry rest ih =>
    apply (keeps_evalText hev entry.2).bind
    intro pattern
    refine .ite (fun _ => ?_) fun _ => ih _
    split
    · exact ih _
    · exact .fail _

theorem keeps_evalPath (node : Node) : Keeps P (evalPath ev node) :=
  (keeps_evalRawPath hev node).bind fun _ => Keeps.getEnv.bind fun _ => .pure trivial

theorem keeps_evalPaths (nodes : List Node) : Keeps P (evalPaths ev nodes) := by
  induction nodes with
  | nil => exact .pure trivial
  | cons node rest ih => exact (keeps_evalPath hev node).bind fun _ => ih.bind fun _ => .pure trivial

theorem keeps_pathIn (node : Node) (root : String) : Keeps P (pathIn ev node root) := by
  apply (keeps_evalRawPath hev node).bind
  intro raw
  refine .ite (fun _ => ?_) fun _ => .pure trivial
  exact Keeps.getEnv.bind fun _ => .pure trivial

theorem keeps_evalTargets (node : Node) : Keeps P (evalTargets ev node) := by
  apply (keeps_evalPath hev node).bind
  intro target
  refine .ite (fun _ => .pure trivial) fun _ => ?_
  exact Keeps.getEnv.bind fun _ => .ite (fun _ => .fail _) fun _ => .pure trivial

theorem keeps_evalTarget (node : Node) : Keeps P (evalTarget ev node) := by
  apply (keeps_evalTargets hev node).bind
  intro targets
  split
  · exact .pure trivial
  · exact .fail _
  · exact .fail _

theorem keeps_cameraMessage (command : CameraCommand Node) : Keeps P (cameraMessage ev command) := by
  cases command with
  | go motion position rotation =>
    apply (keeps_evalVector hev _ _ _).bind
    intro position
    apply (keeps_evalVector hev _ _ _).bind
    intro rotation
    split
    · exact .pure trivial
    · exact .fail _
  | wait seconds => exact (keeps_evalFloat hev _ _).bind fun _ => .pure trivial

theorem keeps_evalOptionalText (node : Option Node) : Keeps P (evalOptionalText ev node) := by
  cases node with
  | some node => exact (keeps_evalText hev node).bind fun _ => .pure trivial
  | none => exact .pure trivial

theorem keeps_evalColor (node : Node) : Keeps P (evalColor ev node) :=
  (keeps_evalText hev node).bind fun _ => .ite (fun _ => .pure trivial) fun _ => .fail _

theorem keeps_evalRotation (node : Node) : Keeps P (evalRotation ev node) := by
  apply (hev node).bind
  intro value
  extract_lets named
  split
  · exact .pure trivial
  · exact .ite (fun _ => .pure trivial) fun _ => .fail _
  · exact .fail _

theorem keeps_evalPosition (node : Node) : Keeps P (evalPosition ev node) := by
  apply (hev node).bind
  intro value
  split
  · exact .ite (fun _ => .pure trivial) fun _ => .fail _
  · exact .fail _

theorem keeps_addChoice (attributes : Object) (key what : String) (allowed : List String)
    (node : Option Node) : Keeps P (addChoice ev attributes key what allowed node) := by
  cases node with
  | none => exact .pure trivial
  | some node =>
    apply (keeps_evalText hev node).bind
    intro text
    exact (keeps_oneOf text allowed what).bind fun _ => .pure trivial

theorem keeps_callAlias (name : String) : Keeps P (callAlias ev name) := by
  apply Keeps.getEnv.bind
  intro env
  split
  · exact hev _
  · exact .fail _

theorem keeps_sequence (last : Value) (nodes : List Node) : Keeps P (sequence ev last nodes) := by
  induction nodes generalizing last with
  | nil => exact .pure trivial
  | cons node rest ih =>
    apply (hev node).bind
    intro value
    apply keeps_exiting.bind
    intro _
    exact .ite (fun _ => .pure trivial) fun _ => ih value

theorem keeps_conditional (condition body : Node) (otherwise : Option Node) :
    Keeps P (conditional ev condition body otherwise) := by
  apply (keeps_evalBool hev condition _).bind
  intro holds
  refine .ite (fun _ => hev body) fun _ => ?_
  split
  · exact hev _
  · exact .pure trivial

theorem keeps_loop (condition body : Node) (step : Option Node) (fuel : Nat) :
    Keeps P (loop ev condition body step fuel) := by
  induction fuel with
  | zero => exact .throw _
  | succ fuel ih =>
    apply (keeps_evalBool hev condition _).bind
    intro holds
    refine .ite (fun _ => (hev body).bind fun _ => keeps_exiting.bind fun _ => ?_) fun _ => .pure trivial
    refine .ite (fun _ => .pure trivial) fun _ => ?_
    cases step with
    | some step => exact (hev step).bind fun _ => ih
    | none => exact ih

theorem keeps_assign {name : String}
    (hset : ∀ value, value.isAssignable → Keeps P (modifyEnv (·.setVariable name value))) (node : Node) :
    Keeps P (assign ev name node) := by
  apply (hev node).bind
  intro value
  exact .ite (fun hvalue => (hset value hvalue).bind fun _ => .pure trivial) fun _ => .fail _

theorem keeps_countUp {name : String}
    (hset : ∀ n, Keeps P (modifyEnv (·.setVariable name (.int n)))) (body : Node) (count : Nat)
    (first : Int) : Keeps P (countUp ev name body count first) := by
  induction count generalizing first with
  | zero => exact .pure trivial
  | succ count ih =>
    apply (hset _).bind
    intro _
    apply (hev body).bind
    intro _
    exact keeps_exiting.bind fun _ => .ite (fun _ => .pure trivial) fun _ => ih _

theorem keeps_forRange {name : String}
    (hset : ∀ n, Keeps P (modifyEnv (·.setVariable name (.int n)))) (first last body : Node) :
    Keeps P (forRange ev name first last body) := by
  apply (keeps_evalInt hev first _).bind
  intro first
  apply (keeps_evalInt hev last _).bind
  intro last
  exact .ite (fun _ => .fail _) fun _ => keeps_countUp hev hset body _ _

theorem keeps_forItems {name : String} {items : List Value}
    (hset : ∀ value ∈ items, Keeps P (modifyEnv (·.setVariable name value))) (body : Node) :
    Keeps P (forItems ev name body items) := by
  induction items with
  | nil => exact .pure trivial
  | cons value rest ih =>
    apply (hset value List.mem_cons_self).bind
    intro _
    apply (hev body).bind
    intro _
    refine keeps_exiting.bind fun _ => .ite (fun _ => .pure trivial) fun _ => ih ?_
    exact fun value hvalue => hset value (List.mem_cons_of_mem _ hvalue)

theorem keeps_forEach {name : String}
    (hset : ∀ value, Keeps P (modifyEnv (·.setVariable name value))) (array body : Node) :
    Keeps P (forEach ev name array body) := by
  apply (hev array).bind
  intro value
  split
  · exact keeps_forItems hev (fun value _ => hset value) body
  · exact keeps_forItems hev (fun value _ => hset value) body
  · exact .fail _

/-- A failed statement is recorded, with what it changed before. -/
theorem keeps_runStatement (file : String) (statement : Statement Node) :
    Keeps P (runStatement ev file statement) := by
  intro s hs
  have hpost := hev statement.content s hs
  simp only [runStatement]
  cases h : ev statement.content s with
  | ok value s' =>
    rw [h] at hpost
    exact ⟨hpost.1, trivial⟩
  | error stop s' =>
    rw [h] at hpost
    cases stop with
    | failed e => exact ⟨hpost, trivial⟩
    | broken cause => exact hpost
    | exhausted => exact hpost

theorem keeps_runStatements (file : String) (statements : List (Statement Node)) :
    Keeps P (runStatements ev file statements) := by
  induction statements with
  | nil => exact .pure trivial
  | cons statement rest ih =>
    apply (keeps_runStatement hev file statement).bind
    intro failures
    apply Keeps.get.bind
    intro s
    exact .ite (fun _ => .pure trivial) fun _ => ih.bind fun _ => .pure trivial

theorem keeps_runText (file text : String) : Keeps P (runText ev file text) := by
  refine .ite (fun _ => .fail _) fun _ => (keeps_runStatements hev file _).bind fun failures => ?_
  exact .ite (fun _ => .fail _) fun _ => .pure trivial

/-- Expressions only look at the variables and at where the session is. -/
theorem keeps_step_of_isExpression [Hierarchy β] [Viewer ν] (fuel : Nat) {node : Node}
    (hnode : node.isExpression) : Keeps P (step ev fuel node) := by
  cases node with
  | literal => exact .pure trivial
  | symbol name => exact keeps_lookUp name
  | element name index =>
    exact (keeps_lookUp name).bind fun _ => (keeps_evalInt hev index _).bind fun _ => Keeps.settle _
  | array items => exact (keeps_evalAll hev items).bind fun _ => .pure trivial
  | interpolation template args => exact (keeps_evalAll hev args).bind fun _ => keeps_filled _ _
  | formatted template args =>
    exact (keeps_evalText hev template).bind fun _ => (keeps_evalAll hev args).bind fun _ => keeps_filled _ _
  | path raw => exact (keeps_evalPath hev (.path raw)).bind fun _ => .pure trivial
  | binary op left right => exact (hev left).bind fun _ => (hev right).bind fun _ => Keeps.settle _
  | negate operand => exact (hev operand).bind fun _ => Keeps.settle _
  | not operand =>
    apply (hev operand).bind
    intro value
    split
    · exact .pure trivial
    · exact .fail _
  | _ => cases hnode

end Nested

end Command

end TwinShell
