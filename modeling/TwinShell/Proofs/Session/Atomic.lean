import TwinShell.Proofs.Session.Inside
import TwinShell.Proofs.Session.Settled

/-!
# Commands that change nothing when they fail

A step that fails keeps the changes it made before, so a command is atomic only if each of its failures comes before its first change. The commands on a single object are built that way: the arguments, being expressions, change nothing; what is checked next only looks; then comes one operation on the store, which leaves it alone when it fails; and what follows cannot fail. A command on several objects, by a selection or a pattern, can fail halfway, and so can a domain that is set for everything below an object.
-/

namespace TwinShell

/-- What the session remembers and the hierarchy it works on are the same. It may have printed something, read files or talked to the viewer. -/
def Session.SameAs {β ν : Type} (s s' : Session β ν) : Prop :=
  s'.env = s.env ∧ s'.hierarchy = s.hierarchy

namespace Command

variable {β ν α γ : Type} {s : Session β ν} {Q : α → Prop}

/-! ### Rules -/

/-- The step changes neither what a session remembers nor the hierarchy. -/
def Quiet (c : Command β ν α) : Prop := ∀ s : Session β ν, Keeps s.SameAs c

/-- A failure of the step from a given session changes neither what it remembers nor the hierarchy. -/
def AtomicAt (s : Session β ν) (c : Command β ν α) : Prop := ∀ stop s', c s = .error stop s' → s.SameAs s'

/-- A failure of the step changes neither what the session remembers nor the hierarchy. -/
def Atomic (c : Command β ν α) : Prop := ∀ s, AtomicAt s c

def Succeeds (c : Command β ν α) : Prop := ∀ s, ∃ a s', c s = .ok a s'

theorem bind_eq_error {x : Command β ν α} {f : α → Command β ν γ} {stop : Stop} {s' : Session β ν}
    (h : (x >>= f) s = .error stop s') :
    x s = .error stop s' ∨ ∃ a s₁, x s = .ok a s₁ ∧ f a s₁ = .error stop s' := by
  simp only [Bind.bind, EStateM.bind] at h
  cases hx : x s with
  | error e s₁ =>
    rw [hx] at h
    cases h
    exact .inl rfl
  | ok a s₁ =>
    rw [hx] at h
    exact .inr ⟨a, s₁, rfl, h⟩

theorem bind_eq_ok {x : Command β ν α} {f : α → Command β ν γ} {b : γ} {s' : Session β ν}
    (h : (x >>= f) s = .ok b s') : ∃ a s₁, x s = .ok a s₁ ∧ f a s₁ = .ok b s' := by
  simp only [Bind.bind, EStateM.bind] at h
  cases hx : x s with
  | error e s₁ =>
    rw [hx] at h
    cases h
  | ok a s₁ =>
    rw [hx] at h
    exact ⟨a, s₁, rfl, h⟩

theorem Quiet.atomic {c : Command β ν α} (h : Quiet c) : Atomic c := by
  intro s stop s' hstop
  have hpost := h s s ⟨rfl, rfl⟩
  rw [hstop] at hpost
  exact hpost

theorem Atomic.fail (e : EvalError) : Atomic (fail e : Command β ν α) := Quiet.atomic fun _ => .fail e

theorem Atomic.ite {p : Prop} [Decidable p] {x y : Command β ν α} (hx : Atomic x) (hy : Atomic y) :
    Atomic (if p then x else y) := by
  split
  · exact hx
  · exact hy

theorem Atomic.bind {x : Command β ν α} {f : α → Command β ν γ} (hx : Quiet x) (hf : ∀ a, Atomic (f a)) :
    Atomic (x >>= f) := by
  intro s stop s' hstop
  rcases bind_eq_error hstop with hstop | ⟨a, s₁, hok, hstop⟩
  · exact hx.atomic s stop s' hstop
  · have hfirst := hx s s ⟨rfl, rfl⟩
    rw [hok] at hfirst
    obtain ⟨henv, hhierarchy⟩ := hf a s₁ stop s' hstop
    exact ⟨henv.trans hfirst.1.1, hhierarchy.trans hfirst.1.2⟩

/-- After a step that changes nothing at all, the next one starts from the same session. -/
theorem AtomicAt.bind {x : Command β ν α} {f : α → Command β ν γ} (hx : Gives (· = s) x Q)
    (hf : ∀ a, Q a → AtomicAt s (f a)) : AtomicAt s (x >>= f) := by
  intro stop s' hstop
  have hfirst := hx s rfl
  rcases bind_eq_error hstop with hstop | ⟨a, s₁, hok, hrest⟩
  · rw [hstop] at hfirst
    exact hfirst ▸ ⟨rfl, rfl⟩
  · rw [hok] at hfirst
    obtain ⟨rfl, ha⟩ := hfirst
    exact hf a ha stop s' hrest

theorem Succeeds.pure (a : α) : Succeeds (Pure.pure a : Command β ν α) := fun s => ⟨a, s, rfl⟩

theorem Succeeds.bind {x : Command β ν α} {f : α → Command β ν γ} (hx : Succeeds x)
    (hf : ∀ a, Succeeds (f a)) : Succeeds (x >>= f) := by
  intro s
  obtain ⟨a, s₁, hfirst⟩ := hx s
  simp only [Bind.bind, EStateM.bind, hfirst]
  exact hf a s₁

theorem Succeeds.ite {p : Prop} [Decidable p] {x y : Command β ν α} (hx : Succeeds x) (hy : Succeeds y) :
    Succeeds (if p then x else y) := by
  split
  · exact hx
  · exact hy

/-- After a change nothing fails. -/
theorem Atomic.andThen {x : Command β ν α} {f : α → Command β ν γ} (hx : Atomic x)
    (hf : ∀ a, Succeeds (f a)) : Atomic (x >>= f) := by
  intro s stop s' hstop
  rcases bind_eq_error hstop with hstop | ⟨a, s₁, -, hstop⟩
  · exact hx s stop s' hstop
  · obtain ⟨b, s₂, hok⟩ := hf a s₁
    rw [hok] at hstop
    cases hstop

theorem Succeeds.atomic {c : Command β ν α} (h : Succeeds c) : Atomic c := by
  intro s stop s' hstop
  obtain ⟨a, s₁, hok⟩ := h s
  rw [hok] at hstop
  cases hstop

/-- What is known of the result of a step that changes nothing can be used after it. -/
theorem Keeps.gives {c : Command β ν α} (h : Keeps (· = s) c) (hQ : ∀ a s', c s = .ok a s' → Q a) :
    Gives (· = s) c Q := by
  rintro _ rfl
  have hpost := h _ rfl
  split
  · rename_i a s' hok
    rw [hok] at hpost
    exact ⟨hpost.1, hQ a s' hok⟩
  · rename_i stop s' hstop
    rw [hstop] at hpost
    exact hpost

/-! ### What cannot fail -/

theorem succeeds_modifyEnv (f : Environment → Environment) : Succeeds (modifyEnv f : Command β ν Unit) :=
  fun _ => ⟨_, _, rfl⟩

theorem succeeds_emit (line : String) : Succeeds (emit line : Command β ν Unit) := fun _ => ⟨_, _, rfl⟩

theorem succeeds_modifyEnv_pure (f : Environment → Environment) (a : α) :
    Succeeds (do modifyEnv f; return a : Command β ν α) :=
  (succeeds_modifyEnv f).bind fun _ => .pure a

theorem succeeds_emit_pure (line : String) (a : α) : Succeeds (do emit line; return a : Command β ν α) :=
  (succeeds_emit line).bind fun _ => .pure a

theorem emitAll_eq_ok (lines : List String) (s : Session β ν) :
    emitAll lines s = .ok () { s with output := s.output ++ lines.toArray } := by
  induction lines generalizing s with
  | nil =>
    rw [Array.append_empty]
    rfl
  | cons line rest ih =>
    have hemit : emit line s = .ok () { s with output := s.output.push line } := rfl
    refine (bind_of_ok hemit).trans ((ih _).trans ?_)
    simp

theorem succeeds_emitAll (lines : List String) : Succeeds (emitAll lines : Command β ν Unit) :=
  fun s => ⟨(), _, emitAll_eq_ok lines s⟩

theorem succeeds_isDrawn (object : Object) : Succeeds (isDrawn object : Command β ν Bool) :=
  fun _ => ⟨_, _, rfl⟩

section Viewer

variable [Viewer ν]

theorem succeeds_notify (message : Json) : Succeeds (notify message : Command β ν Unit) := by
  intro s
  obtain ⟨viewer, hok⟩ := notify_eq_ok message s
  exact ⟨(), _, hok⟩

theorem succeeds_notifyModified (target : String) (object : Object) :
    Succeeds (notifyModified target object : Command β ν Unit) :=
  (succeeds_isDrawn object).bind fun _ => .ite (succeeds_notify _) (.pure ())

end Viewer

/-! ### Looking and changing -/

theorem stable_sameAs (s : Session Store ν) : Stable s.SameAs where
  output _ _ h := h
  viewer _ _ h := h
  reads _ _ h := h
  getObject _ := keeps_looking _
  getChildren _ _ := keeps_looking _

section Operations

variable {s : Session Store ν} {a : α} {e : HierarchyError} {store : Store}

theorem looking_eq_ok {f : Store → Except HierarchyError α} (h : f s.hierarchy = .ok a) :
    onHierarchy (Store.looking f) s = .ok a s := by
  simp only [onHierarchy, Store.looking, h]

theorem looking_eq_error {f : Store → Except HierarchyError α} (h : f s.hierarchy = .error e) :
    onHierarchy (Store.looking f) s = .error (.failed (.hierarchy e)) s := by
  simp only [onHierarchy, Store.looking, h]

theorem changing_eq_ok {f : Store → Except HierarchyError (α × Store)} (h : f s.hierarchy = .ok (a, store)) :
    onHierarchy (Store.changing f) s = .ok a { s with hierarchy := store } := by
  simp only [onHierarchy, Store.changing, h]

theorem changing_eq_error {f : Store → Except HierarchyError (α × Store)} (h : f s.hierarchy = .error e) :
    onHierarchy (Store.changing f) s = .error (.failed (.hierarchy e)) s := by
  simp only [onHierarchy, Store.changing, h]

theorem getObject_eq_ok {path : String} {object : Object} (h : s.hierarchy.objects.get? path = some object) :
    onHierarchy (Hierarchy.getObject path) s = .ok object s :=
  looking_eq_ok (by rw [Store.getObject, h])

theorem getObject_eq_error {path : String} (h : s.hierarchy.objects.get? path = none) :
    onHierarchy (Hierarchy.getObject path : EStateM HierarchyError Store Object) s =
      .error (.failed (.hierarchy (.notFound path))) s :=
  looking_eq_error (by rw [Store.getObject, h])

end Operations

theorem atomic_changing (f : Store → Except HierarchyError (α × Store)) :
    Atomic (onHierarchy (Store.changing f) : Command Store ν α) := by
  intro s stop s' hstop
  simp only [onHierarchy, Store.changing] at hstop
  cases hf : f s.hierarchy with
  | ok result =>
    rw [hf] at hstop
    cases hstop
  | error e =>
    rw [hf] at hstop
    cases hstop
    exact ⟨rfl, rfl⟩

/-! ### Commands -/

theorem atomic_goTo (path : String) : Atomic (do
    requirePath path
    modifyEnv (·.goTo path)
    return Value.null : Command Store ν Value) :=
  .bind (fun s => keeps_requirePath (stable_sameAs s) path) fun _ => (succeeds_modifyEnv_pure _ _).atomic

theorem atomic_changeDir (target : String) : Atomic (changeDir target : Command Store ν Value) := by
  refine .ite (.bind (fun _ => .getEnv) fun env => ?_) (atomic_goTo target)
  split
  · exact atomic_goTo _
  · exact .bind (fun _ => .fail _) atomic_goTo

theorem atomic_select (targets : List String) : Atomic (select targets : Command Store ν Value) := by
  refine .bind (fun s => Keeps.forM fun path _ => keeps_requirePath (stable_sameAs s) path) fun _ => ?_
  refine Succeeds.atomic ?_
  rcases targets with _ | ⟨only, _ | ⟨second, rest⟩⟩ <;> exact fun _ => ⟨_, _, rfl⟩

theorem atomic_unsetVariable (name : String) : Atomic (unsetVariable name : Command β ν Value) :=
  .bind (fun _ => .getEnv) fun _ => .ite (succeeds_modifyEnv_pure _ _).atomic (.fail _)

theorem atomic_unsetAlias (name : String) : Atomic (unsetAlias name : Command β ν Value) :=
  .bind (fun _ => .getEnv) fun _ => .ite (succeeds_modifyEnv_pure _ _).atomic (.fail _)

section Nested

variable {ev : Node → Command Store ν Value} (hev : ∀ (P : Session Store ν → Prop) node, Keeps P (ev node))
include hev

theorem atomic_assign (name : String) (node : Node) : Atomic (assign ev name node) :=
  .bind (fun _ => hev _ node) fun _ => .ite (succeeds_modifyEnv_pure _ _).atomic (.fail _)

theorem atomic_setSetting (name : String) (node : Node) : Atomic (setSetting ev name node) :=
  .bind (fun _ => hev _ node) fun _ => .bind (fun _ => .getEnv) fun _ => .bind (fun _ => .settle _) fun _ =>
    (succeeds_modifyEnv_pure _ _).atomic

theorem atomic_link (source dest : Node) (slot : Option Node) : Atomic (link ev source dest slot) := by
  refine .bind (fun _ => keeps_evalTarget (hev _) source) fun source => ?_
  refine .bind (fun _ => keeps_evalTarget (hev _) dest) fun dest => ?_
  refine .bind (fun _ => keeps_evalOptionalText (hev _) slot) fun slot => ?_
  exact (atomic_changing _).andThen fun _ => succeeds_emit_pure _ _

theorem atomic_copy (source dest : Node) : Atomic (copy ev source dest) := by
  refine .bind (fun _ => keeps_evalTarget (hev _) source) fun source => ?_
  refine .bind (fun _ => keeps_evalText (hev _) dest) fun dest => ?_
  extract_lets collection rest
  have hrest : ∀ target, Atomic (rest target) := by
    intro target
    refine .ite (.fail _) (.bind (fun s => (stable_sameAs s).getObject source) fun object => ?_)
    extract_lets fields done
    have hdone : ∀ r, Succeeds (done r) := fun _ => succeeds_emit_pure _ _
    refine .ite ?_ ((atomic_changing _).andThen hdone)
    exact (atomic_changing _).andThen fun _ => hdone ()
  clear_value rest
  refine .ite (.fail _) (.ite ?_ ?_)
  · exact .bind (fun _ => Keeps.getEnv.bind fun _ => .pure trivial) hrest
  · exact .bind (fun _ => .pure trivial) hrest

theorem atomic_loadTemplate (file : Node) : Atomic (loadTemplate ev file) := by
  refine .bind (fun _ => keeps_evalText (hev _) file) fun file => ?_
  refine .bind (fun s => keeps_readFile (stable_sameAs s) file) fun text => ?_
  split
  · exact .fail _
  · split
    · exact .fail _
    · exact (atomic_changing _).andThen fun _ => succeeds_emit_pure _ _

variable [Viewer ν]

theorem atomic_unlink (source : Node) (dest : Option Node) : Atomic (unlink ev source dest) := by
  refine .bind (fun _ => keeps_evalTarget (hev _) source) fun source => ?_
  extract_lets rest
  have hrest : ∀ dest, Atomic (rest dest) := fun dest =>
    (atomic_changing _).andThen fun _ => (succeeds_notify _).bind fun _ => succeeds_emit_pure _ _
  cases dest with
  | none => exact hrest none
  | some dest => exact .bind (fun _ => keeps_evalTarget (hev _) dest) fun dest => hrest (some dest)

theorem atomic_focus (path : Option Node) : Atomic (focus ev path) := by
  refine .bind (fun _ => keeps_requireViewer) fun _ => ?_
  cases path with
  | none => exact .bind (fun s => keeps_send (stable_sameAs s) _) fun _ => (Succeeds.pure _).atomic
  | some path =>
    refine .bind (fun _ => keeps_evalTarget (hev _) path) fun target => ?_
    refine .bind (fun s => keeps_requirePath (stable_sameAs s) target) fun _ => ?_
    refine .bind (fun s => keeps_send (stable_sameAs s) _) fun _ => ?_
    exact (succeeds_modifyEnv_pure _ _).atomic

theorem atomic_create (creation : Creation Node) : Atomic (create ev creation) := by
  refine .bind (fun s => keeps_draft (stable_sameAs s) (hev _) creation) fun draft => ?_
  refine (atomic_changing _).andThen fun object => (succeeds_isDrawn object).bind fun _ => ?_
  exact .ite ((succeeds_notify _).bind fun _ => succeeds_emit_pure _ _) (succeeds_emit_pure _ _)

end Nested

/-! ### One target -/

/-- What a path designates is one object, named without a pattern. -/
def HasOneTarget (ev : Node → Command β ν Value) (s : Session β ν) (path : Node) : Prop :=
  ∀ targets s', evalTargets ev path s = .ok targets s' →
    ∃ target, targets = [target] ∧ Text.hasChar (Path.baseName target) '*' = false

/-- An update does not set a domain for everything below its target. -/
def SparesBelow (key : String) (values : List Value) : Prop :=
  key = "domain" → ∀ domain, domainArguments values ≠ .ok (domain, true)

/-- A deletion or an update applies to one object, without what is below it in the case of a domain. -/
def AimsAtOne (ev : Node → Command β ν Value) (s : Session β ν) : Node → Prop
  | .delete path => HasOneTarget ev s path
  | .unsetAttribute path _ _ => HasOneTarget ev s path
  | .update path key nodes _ => HasOneTarget ev s path ∧
    ∀ values s', evalAll ev nodes s = .ok values s' → SparesBelow key values
  | _ => True

/-- Where a command aims depends on the nodes inside it alone. -/
theorem AimsAtOne.congr {H : Node → Prop} {ev ev' : Node → Command β ν Value} {node : Node}
    (hev : SameOn H ev ev') (hparts : ∀ part ∈ node.parts, H part) (h : AimsAtOne ev s node) :
    AimsAtOne ev' s node := by
  have htarget {path : Node} (hpath : H path) (h : HasOneTarget ev s path) : HasOneTarget ev' s path := by
    rw [HasOneTarget, ← evalTargets_congr hev hpath]
    exact h
  cases node with
  | delete path => exact htarget (hparts path List.mem_cons_self) h
  | unsetAttribute path key index => exact htarget (hparts path List.mem_cons_self) h
  | update path key values sharp =>
    obtain ⟨hpath, hvalues⟩ := List.forall_mem_cons.1 hparts
    refine ⟨htarget hpath h.1, ?_⟩
    rw [← evalAll_congr hev hvalues]
    exact h.2
  | _ => trivial

variable [Viewer ν]

theorem atomic_deleteOne (target : String) : Atomic (deleteOne target : Command Store ν (List String)) := by
  refine (atomic_changing _).andThen fun deleted => (succeeds_modifyEnv _).bind fun _ => ?_
  exact (succeeds_notify _).bind fun _ => (succeeds_emitAll _).bind fun _ => .pure _

theorem atomic_updateOne {key : String} {values : List Value} (hspares : SparesBelow key values)
    (sharp : Bool) (target : String) : Atomic (updateOne key values sharp target : Command Store ν (Option Value)) := by
  refine .bind (fun s => keeps_updatePatch (stable_sameAs s) sharp ?_) fun patch => ?_
  · exact fun hkey domain harguments => absurd harguments (hspares hkey domain)
  · split
    · exact (Succeeds.pure _).atomic
    · refine (atomic_changing _).andThen fun object => ?_
      exact (succeeds_notifyModified target object).bind fun _ => .pure _

section Nested

variable {ev : Node → Command Store ν Value} {s : Session Store ν} {path : Node}
  (hev : ∀ (P : Session Store ν → Prop) node, Keeps P (ev node)) (htarget : HasOneTarget ev s path)
include hev htarget

theorem atomicAt_delete : AtomicAt s (delete ev path) := by
  refine .bind ((keeps_evalTargets (hev _) path).gives htarget) ?_
  rintro _ ⟨target, rfl, -⟩
  have hdelete : Atomic (deleteEach [target] : Command Store ν (List String)) :=
    (atomic_deleteOne target).andThen fun _ => (Succeeds.pure []).bind fun _ => .pure _
  exact hdelete.andThen (fun _ => .pure _) s

theorem atomicAt_unsetAttribute (key : String) (index : Option Node) :
    AtomicAt s (unsetAttribute ev path key index) := by
  refine .bind ((keeps_evalTargets (hev _) path).gives htarget) ?_
  rintro _ ⟨target, rfl, -⟩
  have hunset : Atomic (unsetEach ev key index [target]) := by
    refine .bind (fun s => keeps_unsetPatch (stable_sameAs s) (hev _) target key index) fun patch => ?_
    refine (atomic_changing _).andThen fun object => ?_
    exact (succeeds_notifyModified target object).bind fun _ => .pure ()
  exact hunset.andThen (fun _ => .pure _) s

theorem atomicAt_update {key : String} {nodes : List Node}
    (hspares : ∀ values s', evalAll ev nodes s = .ok values s' → SparesBelow key values) (sharp : Bool) :
    AtomicAt s (update ev path key nodes sharp) := by
  refine .bind ((keeps_evalAll (hev _) nodes).gives hspares) fun values hvalues => ?_
  -- The values have changed nothing, so the path still designates what it did before.
  have htargets : Gives (· = s) (updateTargets ev path) fun targets => ∃ target, targets = [target] := by
    apply ((keeps_evalTargets (hev _) path).gives htarget).bind
    rintro _ ⟨target, rfl, hname⟩
    refine .ite (fun hpattern => ?_) fun _ => .pure ⟨target, rfl⟩
    rw [hname] at hpattern
    cases hpattern
  refine .bind htargets ?_
  rintro _ ⟨target, rfl⟩
  have hupdate : Atomic (updateEach key values sharp [target] : Command Store ν (List Value)) :=
    (atomic_updateOne hvalues sharp target).andThen fun _ => (Succeeds.pure []).bind fun _ => .pure _
  refine hupdate.andThen (fun objects => ?_) s
  split <;> exact .pure _

end Nested

end Command

/-- A command that comes down to one change, of the session or of what one path designates. -/
def Node.makesOneChange : Node → Bool
  | .changeDir _ | .select _ | .selectMany _ | .focus _ | .create _ | .link .. | .unlink .. | .copy ..
  | .loadTemplate _ | .assign .. | .setSetting .. | .unsetVariable _ | .unsetAlias _ | .delete _
  | .unsetAttribute .. | .update .. => true
  | _ => false

namespace Command

variable {ν : Type} [Viewer ν] {s : Session Store ν} {node : Node}

/-- Every such command is atomic, if its arguments keep whatever holds before them. -/
theorem atomicAt_step {ev : Node → Command Store ν Value}
    (hev : ∀ (P : Session Store ν → Prop) node, Keeps P (ev node)) (fuel : Nat)
    (hnode : node.makesOneChange) (haim : AimsAtOne ev s node) : AtomicAt s (step ev fuel node) := by
  cases node with
  | changeDir path => exact Atomic.bind (fun _ => keeps_evalPath (hev _) path) atomic_changeDir s
  | select path => exact Atomic.bind (fun _ => keeps_evalTargets (hev _) path) atomic_select s
  | selectMany paths => exact Atomic.bind (fun _ => keeps_evalPaths (hev _) paths) atomic_select s
  | focus path => exact atomic_focus hev path s
  | create creation => exact atomic_create hev creation s
  | link source dest slot => exact atomic_link hev source dest slot s
  | unlink source dest => exact atomic_unlink hev source dest s
  | copy source dest => exact atomic_copy hev source dest s
  | loadTemplate file => exact atomic_loadTemplate hev file s
  | assign name value => exact atomic_assign hev name value s
  | setSetting name value => exact atomic_setSetting hev name value s
  | unsetVariable name => exact atomic_unsetVariable name s
  | unsetAlias name => exact atomic_unsetAlias name s
  | delete path => exact atomicAt_delete hev haim
  | unsetAttribute path key index => exact atomicAt_unsetAttribute hev haim key index
  | update path key values sharp => exact atomicAt_update hev haim.1 haim.2 sharp
  | _ => cases hnode

theorem atomicAt_execute (fuel : Nat) (hnode : node.makesOneChange)
    (hparts : ∀ part ∈ node.parts, part.Plain) (haim : AimsAtOne (execute fuel) s node) :
    AtomicAt s (execute (fuel + 1) node) := by
  have hsame := sameOn_within Node.Plain.part (execute (β := Store) (ν := ν) fuel)
  rw [execute, step_congr hsame fuel hparts]
  · refine atomicAt_step (fun P => ?_) fuel hnode (haim.congr hsame hparts)
    exact gives_within fun _ => keeps_execute_of_plain fuel
  · rintro name rfl
    cases hnode
  · rintro file rfl
    cases hnode

end Command

namespace Session

variable {ν : Type} [Viewer ν]

/-- How a command line evaluates its arguments. -/
def evalArgument (node : Node) : Command Store ν Value := Command.execute (defaultFuel - 1) node

theorem eval_eq_step (node : Node) :
    (eval node : Command Store ν Value) = Command.step evalArgument (defaultFuel - 1) node := rfl

/-- A command line with a single command whose arguments are expressions changes neither what the session remembers nor the store when it fails, if it applies to one object where it could apply to several. -/
theorem unchanged_of_run_eq_error {line : String} {node : Node} (hparse : Language.parse line = .ok node)
    (hnode : node.makesOneChange) (hparts : ∀ part ∈ node.parts, part.isExpression)
    {s s' : Session Store ν} (haim : Command.AimsAtOne evalArgument s node) {e : RunError}
    (hrun : run line s = .error e s') : s'.env = s.env ∧ s'.hierarchy = s.hierarchy := by
  have hplain : ∀ part ∈ node.parts, part.Plain := fun part hpart =>
    ((Language.parsed_of_parse hparse).part hpart).plain (hparts part hpart)
  have hatomic := Command.atomicAt_execute (defaultFuel - 1) hnode hplain haim
  rw [Nat.sub_add_cancel (by decide)] at hatomic
  unfold run at hrun
  rw [hparse] at hrun
  dsimp only [eval] at hrun
  cases hresult : Command.execute defaultFuel node s with
  | ok value s₁ =>
    rw [hresult] at hrun
    cases hrun
  | error stop s₁ =>
    rw [hresult] at hrun
    cases hrun
    exact hatomic stop _ hresult

/-- Tagging an object with a tag that does not exist fails after the object was looked up. -/
theorem unchanged_after_unknown_tag :
    ∃ (node : Node) (s s' : Session Store Recorder),
      Language.parse "/P/a:tags+=red" = .ok node ∧ node.makesOneChange ∧
      (∀ part ∈ node.parts, part.isExpression) ∧ Command.AimsAtOne evalArgument s node ∧
      s.hierarchy.objects.contains "/Physical/a" ∧
      run "/P/a:tags+=red" s = .error (.failed (.path (.unknownTag "red"))) s' ∧
      s'.env = s.env ∧ s'.hierarchy = s.hierarchy := by
  let node : Node := .update (.literalPath "/P/a") "tags+" [.text "red"] false
  have hparse : Language.parse "/P/a:tags+=red" = .ok node := by rfl
  have hparts : ∀ part ∈ node.parts, part.isExpression := by decide
  obtain ⟨s, hs⟩ : ∃ s : Session Store Recorder,
    s = { hierarchy := Store.empty.insert "/Physical/a" .empty, viewer := {} } := ⟨_, rfl⟩
  have hstored : s.hierarchy.objects.contains "/Physical/a" := by rw [hs]; decide
  have htargets : Command.evalTargets evalArgument (.literalPath "/P/a") s = .ok ["/Physical/a"] s := by
    rw [hs]
    rfl
  have hrun : run "/P/a:tags+=red" s = .error (.failed (.path (.unknownTag "red"))) s := by
    rw [hs]
    rfl
  have haim : Command.AimsAtOne evalArgument s node := by
    refine ⟨fun targets s' htarget => ?_, fun _ _ _ => nofun⟩
    rw [htargets] at htarget
    cases htarget
    exact ⟨_, rfl, by decide⟩
  exact ⟨node, s, s, hparse, rfl, hparts, haim, hstored, hrun,
    unchanged_of_run_eq_error hparse rfl hparts haim hrun⟩

end Session

end TwinShell
