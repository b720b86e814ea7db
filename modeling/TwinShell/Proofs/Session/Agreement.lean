import TwinShell.Proofs.Language.Shapes
import TwinShell.Proofs.Session.Steps

/-!
# Two runs with different viewers

A command that only tells the viewer about changes does the same whatever the viewer is, whether it is connected and whether it can be told. To show this, two runs are followed side by side, from sessions that differ in nothing but the viewer. `Agrees` says that two steps, one for each viewer, come to the same result from such sessions and lead to such sessions again; it is closed under binds, so commands are taken apart as in the study of a single run. What a session can run besides the node itself are its aliases and its script files, so these must not ask for the viewer either.
-/

namespace TwinShell

/-! ### Nodes that do without the viewer -/

namespace Node

/-- The attributes that are only shown by the viewer. -/
def shownKeys : List String := ["label", "labelFont", "labelBackground"] ++ displaySwitches

/-- Whether a node itself asks something of the viewer, or about it. -/
def needsViewer : Node → Bool
  | .draw .. | .undraw .. | .ui .. | .camera .. | .focus .. | .connect .. | .disconnect
  | .showPeers => true
  | .update _ key _ _ => shownKeys.contains key
  | _ => false

/-- Neither the node nor any node inside it needs the viewer. -/
inductive Offline : Node → Prop
  | intro {node : Node} (alone : node.needsViewer = false)
    (parts : ∀ part ∈ node.parts, part.Offline) : node.Offline

theorem Offline.part {node part : Node} (h : node.Offline) (hpart : part ∈ node.parts) :
    part.Offline := by
  cases h with
  | intro _ parts => exact parts part hpart

end Node

/-! ### Sessions that differ in the viewer -/

namespace Session

variable {β ν μ : Type}

/-- A session in which nothing that can run without being typed needs the viewer. -/
structure Offline (s : Session β ν) : Prop where
  aliases : ∀ name body, s.env.aliases.get? name = some body → body.Offline
  scripts : ∀ path text, s.files.read path = .ok text →
    ∀ statement ∈ (Script.read text).statements, statement.content.Offline

def withViewer (s : Session β ν) (viewer : μ) : Session β μ where
  env := s.env
  hierarchy := s.hierarchy
  viewer := viewer
  files := s.files
  reads := s.reads
  output := s.output
  exitRequested := s.exitRequested
  scriptDepth := s.scriptDepth

end Session

namespace Command

section Rules

variable {β ν μ α γ : Type}

/-- Two runs came to the same result, in sessions that differ in the viewer. -/
inductive Alike : EStateM.Result Stop (Session β ν) α → EStateM.Result Stop (Session β μ) α → Prop
  | ok {a : α} {s : Session β ν} {viewer : μ} (hs : s.Offline) :
    Alike (.ok a s) (.ok a (s.withViewer viewer))
  | error {stop : Stop} {s : Session β ν} {viewer : μ} (hs : s.Offline) :
    Alike (.error stop s) (.error stop (s.withViewer viewer))

variable (β ν μ) in
/-- Two steps do the same from sessions that differ in the viewer. -/
def Agrees (c : Command β ν α) (d : Command β μ α) : Prop :=
  ∀ s viewer, s.Offline → Alike (c s) (d (s.withViewer viewer))

theorem Agrees.pure (a : α) : Agrees β ν μ (Pure.pure a) (Pure.pure a) := fun _ _ hs => .ok hs

theorem Agrees.throw (stop : Stop) :
    Agrees (α := α) β ν μ (MonadExcept.throw stop) (MonadExcept.throw stop) := fun _ _ hs => .error hs

theorem Agrees.fail (e : EvalError) : Agrees (α := α) β ν μ (fail e) (fail e) := .throw _

theorem Agrees.bind {x : Command β ν α} {y : Command β μ α} {f : α → Command β ν γ}
    {g : α → Command β μ γ} (hx : Agrees β ν μ x y) (hf : ∀ a, Agrees β ν μ (f a) (g a)) :
    Agrees β ν μ (x >>= f) (y >>= g) := by
  intro s viewer hs
  have hfirst := hx s viewer hs
  simp only [Bind.bind, EStateM.bind]
  generalize x s = r, y (s.withViewer viewer) = r' at hfirst
  cases hfirst with
  | ok hs => exact hf _ _ _ hs
  | error hs => exact .error hs

theorem Agrees.ite {p : Prop} [Decidable p] {x₁ x₂ : Command β ν α} {y₁ y₂ : Command β μ α}
    (hpos : p → Agrees β ν μ x₁ y₁) (hneg : ¬p → Agrees β ν μ x₂ y₂) :
    Agrees β ν μ (if p then x₁ else x₂) (if p then y₁ else y₂) := by
  split
  · exact hpos ‹p›
  · exact hneg ‹¬p›

theorem Agrees.forM {f : α → Command β ν PUnit} {g : α → Command β μ PUnit}
    (h : ∀ a, Agrees β ν μ (f a) (g a)) (l : List α) : Agrees β ν μ (l.forM f) (l.forM g) := by
  induction l with
  | nil => exact .pure _
  | cons a l ih => exact (h a).bind fun _ => ih

theorem Agrees.settle (result : Except EvalError α) :
    Agrees β ν μ (settle result) (settle result) := by
  cases result with
  | ok a => exact .pure a
  | error e => exact .fail e

/-- A step that looks at the session sees all of it but the viewer. -/
theorem Agrees.get {f : Session β ν → Command β ν α} {g : Session β μ → Command β μ α}
    (h : ∀ (s : Session β ν) (viewer : μ), Agrees β ν μ (f s) (g (s.withViewer viewer))) :
    Agrees β ν μ (MonadState.get >>= f) (MonadState.get >>= g) :=
  fun s viewer hs => h s viewer s viewer hs

theorem agrees_getEnv : Agrees β ν μ getEnv getEnv := fun _ _ hs => .ok hs

/-- The aliases of the environment do without the viewer. -/
theorem agrees_getEnv_bind {f : Environment → Command β ν α} {g : Environment → Command β μ α}
    (h : ∀ env : Environment, (∀ name body, env.aliases.get? name = some body → body.Offline) →
      Agrees β ν μ (f env) (g env)) : Agrees β ν μ (getEnv >>= f) (getEnv >>= g) :=
  fun s viewer hs => h s.env hs.aliases s viewer hs

theorem agrees_modifyEnv {f : Environment → Environment} (h : ∀ env, (f env).aliases = env.aliases) :
    Agrees β ν μ (modifyEnv f) (modifyEnv f) := by
  intro s viewer hs
  refine .ok ⟨fun name body hbody => hs.aliases name body ?_, hs.scripts⟩
  rwa [← h s.env]

theorem agrees_emit (line : String) : Agrees β ν μ (emit line) (emit line) :=
  fun _ _ hs => .ok ⟨hs.aliases, hs.scripts⟩

theorem agrees_onHierarchy (op : EStateM HierarchyError β α) :
    Agrees β ν μ (onHierarchy op) (onHierarchy op) := by
  intro s viewer hs
  have hoffline : ∀ hierarchy : β, Session.Offline { s with hierarchy } := fun _ => ⟨hs.aliases, hs.scripts⟩
  simp only [onHierarchy, Session.withViewer]
  cases op s.hierarchy with
  | ok a hierarchy => exact .ok (hoffline hierarchy)
  | error e hierarchy => exact .error (hoffline hierarchy)

/-- What a file holds is read as a script whose statements do without the viewer. -/
theorem agrees_readFile_bind {f : String → Command β ν α} {g : String → Command β μ α} (path : String)
    (h : ∀ text, (∀ statement ∈ (Script.read text).statements, statement.content.Offline) →
      Agrees β ν μ (f text) (g text)) : Agrees β ν μ (readFile path >>= f) (readFile path >>= g) := by
  intro s viewer hs
  have hoffline : ∀ reads, Session.Offline { s with reads } := fun _ => ⟨hs.aliases, hs.scripts⟩
  simp only [Bind.bind, EStateM.bind, readFile, Session.withViewer]
  cases hread : s.files.read path with
  | ok text => exact h text (hs.scripts path text hread) _ viewer (hoffline _)
  | error e => exact .error (hoffline _)

/-- Being told is not a matter of the result: a viewer that is not connected, or cannot be told, changes nothing. -/
theorem agrees_notify [Viewer ν] [Viewer μ] (message : Json) :
    Agrees β ν μ (notify message) (notify message) := by
  intro s viewer hs
  obtain ⟨first, hfirst⟩ := notify_eq_ok message s
  obtain ⟨second, hsecond⟩ := notify_eq_ok message (s.withViewer viewer)
  rw [hfirst, hsecond]
  exact .ok ⟨hs.aliases, hs.scripts⟩

end Rules

/-! ### Parts of commands -/

section Parts

variable {β ν μ : Type}

theorem agrees_emitAll (lines : List String) : Agrees β ν μ (emitAll lines) (emitAll lines) :=
  .forM agrees_emit lines

theorem agrees_isDrawn (object : Object) : Agrees β ν μ (isDrawn object) (isDrawn object) :=
  agrees_getEnv.bind fun _ => .pure _

theorem agrees_resolve (raw : String) : Agrees β ν μ (resolve raw) (resolve raw) :=
  agrees_getEnv.bind fun _ => .pure _

theorem agrees_sortedBy (key : String) (entries : List (String × Object)) :
    Agrees β ν μ (sortedBy key entries) (sortedBy key entries) := by
  unfold sortedBy
  extract_lets less
  cases Sorting.sort? less entries with
  | some sorted => exact .pure sorted
  | none => exact .throw _

theorem agrees_treeChildren {below : String → String → Command β ν (List String)}
    {below' : String → String → Command β μ (List String)}
    (hbelow : ∀ child indent, Agrees β ν μ (below child indent) (below' child indent)) (indent : String)
    (children : List (String × Object)) :
    Agrees β ν μ (treeChildren below indent children) (treeChildren below' indent children) := by
  induction children with
  | nil => exact .pure _
  | cons child rest ih => exact (hbelow _ _).bind fun _ => ih.bind fun _ => .pure _

theorem agrees_foundDevice (device : Option (String × Object)) (missing : String) :
    Agrees β ν μ (foundDevice device missing) (foundDevice device missing) := by
  cases device with
  | some found => exact (agrees_emit _).bind fun _ => .pure _
  | none => exact (agrees_emit _).bind fun _ => .pure _

theorem agrees_oneOf (text : String) (allowed : List String) (what : String) :
    Agrees β ν μ (oneOf text allowed what) (oneOf text allowed what) :=
  .ite (fun _ => .pure _) fun _ => .fail _

theorem agrees_exiting : Agrees β ν μ exiting exiting := fun _ _ hs => .ok hs

theorem agrees_lookUp (name : String) : Agrees β ν μ (lookUp name) (lookUp name) := by
  apply agrees_getEnv.bind
  intro env
  cases env.bindings.get? name with
  | some value => exact .pure value
  | none => exact .fail _

theorem agrees_filled (template : String) (args : List Value) :
    Agrees β ν μ (filled template args) (filled template args) := by
  unfold filled
  cases Template.format template args with
  | ok text => exact .pure _
  | error e =>
    cases e with
    | tooManyPlaces count => exact .throw _
    | _ => exact .fail _

theorem agrees_notifyModified [Viewer ν] [Viewer μ] (target : String) (object : Object) :
    Agrees β ν μ (notifyModified target object) (notifyModified target object) :=
  (agrees_isDrawn object).bind fun _ => .ite (fun _ => agrees_notify _) fun _ => .pure _

variable [Hierarchy β]

theorem agrees_pathExists (path : String) : Agrees β ν μ (pathExists path) (pathExists path) :=
  .ite (fun _ => .pure _) fun _ => agrees_onHierarchy _

theorem agrees_requirePath (path : String) : Agrees β ν μ (requirePath path) (requirePath path) :=
  (agrees_pathExists path).bind fun _ => .ite (fun _ => .fail _) fun _ => .pure _

theorem agrees_listChildren (target : String) (filter : Filter) :
    Agrees β ν μ (listChildren target filter) (listChildren target filter) := by
  refine .ite (fun _ => .pure _) fun _ => ?_
  exact (agrees_onHierarchy _).bind fun _ => .pure _

theorem agrees_treeLines (depth : Nat) (target indent : String) :
    Agrees β ν μ (treeLines depth target indent) (treeLines depth target indent) := by
  induction depth generalizing target indent with
  | zero => exact .pure _
  | succ depth ih =>
    apply (agrees_listChildren target {}).bind
    intro children
    exact agrees_treeChildren ih indent children

theorem agrees_wildcardTargets (target : String) :
    Agrees β ν μ (wildcardTargets target) (wildcardTargets target) :=
  (agrees_listChildren _ _).bind fun _ => .ite (fun _ => .fail _) fun _ => .pure _

theorem agrees_showObject (path : String) : Agrees β ν μ (showObject path) (showObject path) :=
  (agrees_onHierarchy _).bind fun _ => (agrees_emit _).bind fun _ => .pure _

theorem agrees_showObjects (paths : List String) :
    Agrees β ν μ (showObjects paths) (showObjects paths) := by
  induction paths with
  | nil => exact .pure _
  | cons path rest ih => exact (agrees_showObject path).bind fun _ => ih.bind fun _ => .pure _

theorem agrees_requireTemplate (root name : String) :
    Agrees β ν μ (requireTemplate root name) (requireTemplate root name) :=
  (agrees_pathExists _).bind fun _ => .ite (fun _ => .fail _) fun _ => .pure _

end Parts

/-! ### Arguments -/

section Arguments

variable {β ν μ : Type} {ev : Node → Command β ν Value} {ev' : Node → Command β μ Value}
  (hev : ∀ node, node.Offline → Agrees β ν μ (ev node) (ev' node)) {node : Node} {nodes : List Node}
include hev

theorem agrees_evalAll (h : ∀ node ∈ nodes, node.Offline) :
    Agrees β ν μ (evalAll ev nodes) (evalAll ev' nodes) := by
  induction nodes with
  | nil => exact .pure _
  | cons node rest ih =>
    obtain ⟨hnode, hrest⟩ := List.forall_mem_cons.1 h
    exact (hev node hnode).bind fun _ => (ih hrest).bind fun _ => .pure _

theorem agrees_evalText (h : node.Offline) : Agrees β ν μ (evalText ev node) (evalText ev' node) := by
  apply (hev node h).bind
  intro value
  cases value with
  | null => exact .fail _
  | _ => exact .pure _

theorem agrees_evalRawPath (h : node.Offline) :
    Agrees β ν μ (evalRawPath ev node) (evalRawPath ev' node) := by
  cases node with
  | path raw => exact agrees_evalText hev (h.part List.mem_cons_self)
  | _ => exact agrees_evalText hev h

theorem agrees_evalPath (h : node.Offline) : Agrees β ν μ (evalPath ev node) (evalPath ev' node) :=
  (agrees_evalRawPath hev h).bind agrees_resolve

theorem agrees_evalPaths (h : ∀ node ∈ nodes, node.Offline) :
    Agrees β ν μ (evalPaths ev nodes) (evalPaths ev' nodes) := by
  induction nodes with
  | nil => exact .pure _
  | cons node rest ih =>
    obtain ⟨hnode, hrest⟩ := List.forall_mem_cons.1 h
    exact (agrees_evalPath hev hnode).bind fun _ => (ih hrest).bind fun _ => .pure _

theorem agrees_evalTargets (h : node.Offline) :
    Agrees β ν μ (evalTargets ev node) (evalTargets ev' node) := by
  apply (agrees_evalPath hev h).bind
  intro target
  refine .ite (fun _ => .pure _) fun _ => ?_
  exact agrees_getEnv.bind fun _ => .ite (fun _ => .fail _) fun _ => .pure _

theorem agrees_evalTarget (h : node.Offline) :
    Agrees β ν μ (evalTarget ev node) (evalTarget ev' node) := by
  apply (agrees_evalTargets hev h).bind
  intro targets
  match targets with
  | [] => exact .fail _
  | [target] => exact .pure target
  | _ :: _ :: _ => exact .fail _

theorem agrees_evalBool (h : node.Offline) (what : String) :
    Agrees β ν μ (evalBool ev node what) (evalBool ev' node what) := by
  apply (hev node h).bind
  intro value
  cases value.bool? with
  | some b => exact .pure b
  | none => exact .fail _

theorem agrees_evalInt (h : node.Offline) (what : String) :
    Agrees β ν μ (evalInt ev node what) (evalInt ev' node what) := by
  apply (hev node h).bind
  intro value
  cases value.int? with
  | some n => exact .pure n
  | none => exact .fail _

theorem agrees_evalFloat (h : node.Offline) (what : String) :
    Agrees β ν μ (evalFloat ev node what) (evalFloat ev' node what) := by
  apply (hev node h).bind
  intro value
  cases value.float? with
  | some x => exact .pure x
  | none => exact .fail _

theorem agrees_evalVector (h : node.Offline) (what : String) (length : Nat) :
    Agrees β ν μ (evalVector ev node what length) (evalVector ev' node what length) :=
  (hev node h).bind fun _ => .settle _

theorem agrees_evalOptionalText {optional : Option Node} (h : ∀ node ∈ optional.toList, node.Offline) :
    Agrees β ν μ (evalOptionalText ev optional) (evalOptionalText ev' optional) := by
  cases optional with
  | some node => exact (agrees_evalText hev (h node List.mem_cons_self)).bind fun _ => .pure _
  | none => exact .pure _

theorem agrees_listFilter {filters : List (String × Node)}
    (h : ∀ node ∈ filters.map (·.2), node.Offline) (filter : Filter) :
    Agrees β ν μ (listFilter ev filter filters) (listFilter ev' filter filters) := by
  induction filters generalizing filter with
  | nil => exact .pure _
  | cons entry rest ih =>
    rw [List.map_cons, List.forall_mem_cons] at h
    apply (agrees_evalText hev h.1).bind
    intro pattern
    refine .ite (fun _ => ?_) fun _ => ih h.2 _
    cases Kind.ofName? pattern with
    | some kind => exact ih h.2 _
    | none => exact .fail _

theorem agrees_evalColor (h : node.Offline) : Agrees β ν μ (evalColor ev node) (evalColor ev' node) :=
  (agrees_evalText hev h).bind fun _ => .ite (fun _ => .pure _) fun _ => .fail _

theorem agrees_pathIn (h : node.Offline) (root : String) :
    Agrees β ν μ (pathIn ev node root) (pathIn ev' node root) :=
  (agrees_evalRawPath hev h).bind fun raw => .ite (fun _ => agrees_resolve raw) fun _ => .pure _

theorem agrees_evalRotation (h : node.Offline) :
    Agrees β ν μ (evalRotation ev node) (evalRotation ev' node) := by
  apply (hev node h).bind
  intro value
  extract_lets named
  cases named with
  | some xs => exact .pure xs
  | none =>
    cases value.vector? with
    | some xs => exact .ite (fun _ => .pure _) fun _ => .fail _
    | none => exact .fail _

theorem agrees_evalPosition (h : node.Offline) :
    Agrees β ν μ (evalPosition ev node) (evalPosition ev' node) := by
  apply (hev node h).bind
  intro value
  cases value.vector? with
  | some xs => exact .ite (fun _ => .pure _) fun _ => .fail _
  | none => exact .fail _

theorem agrees_addChoice {optional : Option Node} (h : ∀ node ∈ optional.toList, node.Offline)
    (attributes : Object) (key what : String) (allowed : List String) :
    Agrees β ν μ (addChoice ev attributes key what allowed optional)
      (addChoice ev' attributes key what allowed optional) := by
  cases optional with
  | none => exact .pure _
  | some node =>
    apply (agrees_evalText hev (h node List.mem_cons_self)).bind
    intro text
    exact (agrees_oneOf text allowed what).bind fun _ => .pure _

end Arguments

end Command

end TwinShell
