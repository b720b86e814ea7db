import TwinShell.Proofs.Session.Moving

/-!
# Careful evaluation

Four commands change what exists without looking after the session: creating an object, linking, unlinking and loading a template. For each of them there is an exact condition under which a settled session is settled afterwards. The careful evaluator is the evaluator, except that it refuses these four commands where their condition fails; it keeps every session settled.
-/

namespace TwinShell

namespace Move

variable {ν : Type} {m : Move} {s : Session Store ν} {store : Store}

/-- A path that exists is still there after the move: it is a namespace, lies outside of what is moved, or something comes to lie there and stays. -/
def Leaves (m : Move) (s : Store) (path : String) : Prop :=
  Path.isNamespace path ∨ ¬Path.isUnder path m.source ∨
    ∃ key ∈ s.subtree m.source, path = m.movedPath key ∧ ¬m.CarriedOn s key

/-- The tree stays connected, and the places of the session stay. -/
def Spares (m : Move) (s : Session Store ν) : Prop :=
  m.KeepsTree s.hierarchy ∧ ∀ path ∈ s.env.currentPath :: s.env.selection, m.Leaves s.hierarchy path

/-! ### The conditions can be evaluated -/

theorem carriedOn_iff {s : Store} {key : String} : m.CarriedOn s key ↔ s.objects.contains (m.movedPath key) ∧
    Path.isUnder (m.movedPath key) m.source ∧ key < m.movedPath key :=
  ⟨fun h => ⟨h.contains, h.isUnder, h.lt⟩, fun h => ⟨h.1, h.2.1, h.2.2⟩⟩

instance (m : Move) (s : Store) (key : String) : Decidable (m.CarriedOn s key) :=
  decidable_of_iff _ carriedOn_iff.symm

theorem keepsTree_iff {s : Store} : m.KeepsTree s ↔
    (Path.isNamespace m.dest ∨ s.objects.contains m.dest ∧ ¬Path.isUnder m.dest m.source) ∧
    ∀ key ∈ s.subtree m.source, key ≠ m.source → s.objects.contains (Path.parent key) ∧
      (m.CarriedOn s (Path.parent key) → m.CarriedOn s key) := by
  constructor
  · intro h
    refine ⟨h.dest_stays, fun key hkey hne => ?_⟩
    obtain ⟨hstored, hunder⟩ := Store.mem_subtree.1 hkey
    exact ⟨h.hangs_on_object key hstored hunder hne, h.children_follow key hstored hunder hne⟩
  · rintro ⟨hdest, hbelow⟩
    refine ⟨hdest, fun key hstored hunder hne => ?_, fun key hstored hunder hne => ?_⟩
    · exact (hbelow key (Store.mem_subtree.2 ⟨hstored, hunder⟩) hne).1
    · exact (hbelow key (Store.mem_subtree.2 ⟨hstored, hunder⟩) hne).2

instance (m : Move) (s : Store) : Decidable (m.KeepsTree s) := decidable_of_iff _ keepsTree_iff.symm

instance (m : Move) (s : Store) (path : String) : Decidable (m.Leaves s path) :=
  inferInstanceAs (Decidable (_ ∨ _ ∨ ∃ _ ∈ _, _))

instance (m : Move) : DecidablePred (m.Spares (ν := ν)) := fun _ => inferInstanceAs (Decidable (_ ∧ _))

/-! ### What a move does to a session -/

theorem stands_after_iff {s : Store} (h : m.Makes s store) {path : String} (hpath : s.Stands path) :
    store.Stands path ↔ m.Leaves s path := by
  simp only [Store.Stands, hpath.1, true_and, Store.Exists, Leaves, contains_after h]
  by_cases hspace : Path.isNamespace path
  · simp only [hspace, true_or]
  · have hstored := hpath.2.resolve_left hspace
    simp only [hspace, hstored, true_and, Store.mem_subtree, and_assoc]

theorem anchored_after_iff (hs : s.Anchored) (hrun : m.run s.hierarchy = .ok store) :
    Session.Anchored { s with hierarchy := store } ↔
      ∀ path ∈ s.env.currentPath :: s.env.selection, m.Leaves s.hierarchy path := by
  rw [Session.anchored_iff]
  refine forall₂_congr fun path hpath => ?_
  exact stands_after_iff (makes hrun) (Session.anchored_iff.1 hs path hpath)

/-- Nothing is moved to the sign for the selection. -/
theorem no_sign_after (hs : s.Settled) (hrun : m.run s.hierarchy = .ok store) :
    ¬store.objects.contains Path.selection := by
  intro hsign
  rcases (contains_after (makes hrun)).1 hsign with ⟨hold, -⟩ | ⟨key, -, hunder, heq, -⟩
  · exact hs.no_sign hold
  · have hbelow : Path.isUnder Path.selection m.target := heq ▸ Store.isUnder_movedPath hunder
    exact Path.not_isUnder_join_selection _ _ hbelow

theorem settled_after_iff (hs : s.Settled) (hpaths : ∀ path ∈ m.paths, Path.Canonical path)
    (hrun : m.run s.hierarchy = .ok store) :
    Session.Settled { s with hierarchy := store } ↔ m.Spares s := by
  have hclosed := closed_iff_keepsTree hs.closed hpaths hrun
  have hanchored := anchored_after_iff hs.toAnchored hrun
  constructor
  · exact fun hafter => ⟨hclosed.1 hafter.closed, hanchored.1 hafter.toAnchored⟩
  · exact fun hspares => ⟨hanchored.2 hspares.2, hclosed.2 hspares.1, no_sign_after hs hrun, hs.previous⟩

end Move

namespace Session.Settled

variable {ν : Type} {s : Session Store ν} {store : Store}

theorem create_iff (hs : s.Settled) {path : String} {kind : Kind} {payload object : Object}
    (hcreate : s.hierarchy.createObject path kind payload = .ok (object, store)) :
    Settled { s with hierarchy := store } ↔ path ≠ Path.selection := by
  obtain ⟨hparent, rfl⟩ := Store.createObject_eq_ok hcreate
  rw [hs.insert_iff, and_iff_left hparent]

theorem template_iff (hs : s.Settled) {template : Object}
    (hcreate : s.hierarchy.createTemplate template = .ok store) :
    Settled { s with hierarchy := store } ↔ s.hierarchy.HoldsParentOf template := by
  obtain ⟨path, hpath, rfl⟩ := Store.createTemplate_eq_ok hcreate
  have hne : path ≠ Path.selection := by
    simp only [Store.templatePath?, Option.bind_eq_some_iff, Option.map_eq_some_iff] at hpath
    obtain ⟨slug, -, family, -, rfl⟩ := hpath
    exact Path.join_ne_selection _ _
  rw [hs.insert_iff, and_iff_right hne, Store.HoldsParentOf, hpath]
  rfl

end Session.Settled

namespace Command

open Session (Settled)

variable {ν α : Type}

/-! ### Careful commands -/

/-- An operation on the hierarchy that is refused where it would succeed without sparing the session. -/
def sparing (spares : Session Store ν → Prop) [DecidablePred spares]
    (f : Store → Except HierarchyError (α × Store)) : Command Store ν α := fun s =>
  match f s.hierarchy with
  | .ok (a, store) => if spares s then .ok a { s with hierarchy := store } else .error .exhausted s
  | .error e => .error (.failed (.hierarchy e)) s

theorem keeps_sparing {spares : Session Store ν → Prop} [DecidablePred spares]
    {f : Store → Except HierarchyError (α × Store)}
    (h : ∀ s a store, s.Settled → spares s → f s.hierarchy = .ok (a, store) →
      Settled { s with hierarchy := store }) : Keeps Settled (sparing spares f) := by
  intro s hs
  simp only [sparing]
  cases hf : f s.hierarchy with
  | ok result =>
    by_cases hspares : spares s
    · simp only [hspares, if_true]
      exact ⟨h s result.1 result.2 hs hspares hf, trivial⟩
    · simp only [hspares, if_false]
      exact hs
  | error e => exact hs

/-- Makes a move that spares the session. -/
def moveSparing (m : Move) : Command Store ν Unit := sparing m.Spares fun store => ((), ·) <$> m.run store

theorem keeps_moveSparing {m : Move} (hpaths : ∀ path ∈ m.paths, Path.Canonical path) :
    Keeps Settled (moveSparing (ν := ν) m) := by
  refine keeps_sparing fun s _ store hs hspares hrun => ?_
  exact (Move.settled_after_iff hs hpaths (eq_ok_of_map hrun)).2 hspares

def linkCarefully (ev : Node → Command Store ν Value) (source dest : Node) (slot : Option Node) :
    Command Store ν Value := do
  let source ← evalTarget ev source
  let dest ← evalTarget ev dest
  let slot ← evalOptionalText ev slot
  moveSparing (.link source dest slot)
  emit (source ++ " linked to " ++ dest)
  return .null

/-- Loads a template, where the parent of its path is there. -/
def loadTemplateCarefully (ev : Node → Command Store ν Value) (file : Node) : Command Store ν Value := do
  let file ← evalText ev file
  let text ← readFile file
  match Json.read text with
  | .error e => failType (.invalidTemplate file e)
  | .ok json =>
    match json.object? with
    | none => failType (.noJsonObject file)
    | some template =>
      sparing (·.hierarchy.HoldsParentOf template) fun store => ((), ·) <$> store.createTemplate template
      emit ("Template " ++ file ++ " loaded")
      return .null

variable [Viewer ν]

/-- Creates an object, but not at the sign for the selection. -/
def createCarefully (ev : Node → Command Store ν Value) (creation : Creation Node) :
    Command Store ν Value := do
  let draft ← draft ev creation
  let object ← sparing (fun _ => draft.path ≠ Path.selection)
    (·.createObject draft.path draft.kind draft.fields)
  if ← isDrawn object then notify (Message.create (forViewer draft.path object))
  emit (draft.path ++ " successfully created")
  return .object object

/-- Unlinks, where this spares the session. -/
def unlinkCarefully (ev : Node → Command Store ν Value) (source : Node) (dest : Option Node) :
    Command Store ν Value := do
  let source ← evalTarget ev source
  let dest ← match dest with
    | some dest => do pure (some (← evalTarget ev dest))
    | none => pure none
  moveSparing (.unlink source dest)
  notify (Message.delete (viewerId source))
  emit (source ++ " unlinked")
  return .null

/-- Evaluates a node like `step`, with the careful commands. -/
def stepCarefully (ev : Node → Command Store ν Value) (fuel : Nat) (node : Node) :
    Command Store ν Value :=
  match node with
  | .create creation => createCarefully ev creation
  | .link source dest slot => linkCarefully ev source dest slot
  | .unlink source dest => unlinkCarefully ev source dest
  | .loadTemplate file => loadTemplateCarefully ev file
  | node => step ev fuel node

/-- Evaluates a node like `execute`, with the careful commands. -/
def executeCarefully : Nat → Node → Command Store ν Value
  | 0, _ => throw .exhausted
  | fuel + 1, node => stepCarefully (executeCarefully fuel) fuel node

/-! ### Careful commands keep a session settled -/

section Nested

variable {ev : Node → Command Store ν Value} (hev : ∀ node, Keeps Settled (ev node))
include hev

theorem keeps_createCarefully (creation : Creation Node) : Keeps Settled (createCarefully ev creation) := by
  apply (keeps_draft settled_stable hev creation).bind
  intro draft
  apply (keeps_sparing fun s object store hs hne hcreate => (hs.create_iff hcreate).2 hne).bind
  intro object
  apply (keeps_isDrawn object).bind
  intro drawn
  extract_lets rest
  have hrest : ∀ r, Keeps Settled (rest r) := fun _ =>
    (keeps_emit settled_stable _).bind fun _ => .pure trivial
  exact .ite (fun _ => (keeps_notify settled_stable _).bind hrest) fun _ => hrest ()

theorem keeps_unlinkCarefully (source : Node) (dest : Option Node) :
    Keeps Settled (unlinkCarefully ev source dest) := by
  apply (gives_evalTarget hev source).bind
  intro source hsource
  extract_lets rest
  have hrest : ∀ dest : Option String, (∀ path ∈ dest, Path.Canonical path) → Keeps Settled (rest dest) := by
    intro dest hdest
    have hpaths : ∀ path ∈ (Move.unlink source dest).paths, Path.Canonical path := by
      simp only [Move.paths, List.forall_mem_cons, Option.mem_toList]
      exact ⟨hsource, hdest⟩
    apply (keeps_moveSparing hpaths).bind
    intro _
    apply (keeps_notify settled_stable _).bind
    intro _
    exact (keeps_emit settled_stable _).bind fun _ => .pure trivial
  cases dest with
  | none => exact hrest none fun _ hpath => absurd hpath (by simp)
  | some dest =>
    apply (gives_evalTarget hev dest).bind
    intro dest hdest
    refine hrest (some dest) fun path hpath => ?_
    exact Option.some.inj hpath ▸ hdest

omit [Viewer ν]

theorem keeps_linkCarefully (source dest : Node) (slot : Option Node) :
    Keeps Settled (linkCarefully ev source dest slot) := by
  apply (gives_evalTarget hev source).bind
  intro source hsource
  apply (gives_evalTarget hev dest).bind
  intro dest hdest
  apply (keeps_evalOptionalText hev slot).bind
  intro slot
  have hpaths : ∀ path ∈ (Move.link source dest slot).paths, Path.Canonical path := by
    simp only [Move.paths, List.forall_mem_cons]
    exact ⟨hsource, hdest, fun _ hpath => absurd hpath List.not_mem_nil⟩
  apply (keeps_moveSparing hpaths).bind
  intro _
  exact (keeps_emit settled_stable _).bind fun _ => .pure trivial

theorem keeps_loadTemplateCarefully (file : Node) : Keeps Settled (loadTemplateCarefully ev file) := by
  apply (keeps_evalText hev file).bind
  intro file
  apply (keeps_readFile settled_stable file).bind
  intro text
  split
  · exact .fail _
  · split
    · exact .fail _
    · apply (keeps_sparing fun s _ store hs hparent hcreate =>
        (hs.template_iff (eq_ok_of_map hcreate)).2 hparent).bind
      intro _
      exact (keeps_emit settled_stable _).bind fun _ => .pure trivial

end Nested

theorem stepCarefully_of_isSteady {ev : Node → Command Store ν Value} {fuel : Nat} {node : Node}
    (h : node.isSteady) : stepCarefully ev fuel node = step ev fuel node := by
  cases node with
  | create | link | unlink | loadTemplate => cases h
  | _ => rfl

/-- Every node keeps a session settled, if the nodes inside it do. -/
theorem keeps_stepCarefully {ev : Node → Command Store ν Value} (hev : ∀ node, Keeps Settled (ev node))
    (fuel : Nat) (node : Node) : Keeps Settled (stepCarefully ev fuel node) := by
  by_cases hnode : node.isSteady
  · rw [stepCarefully_of_isSteady hnode]
    exact keeps_step_of_steady settled_steady hev fuel hnode
  have hstable := settled_stable (ν := ν)
  have hset (name : String) (value : Value) :
      Keeps Settled (modifyEnv (·.setVariable name value) : Command Store ν Unit) :=
    fun s hs => ⟨settled_ofPlaces.bindings s _ hs, trivial⟩
  have haliases (f : Dict Node → Dict Node) : Keeps Settled
      (modifyEnv fun env => { env with aliases := f env.aliases } : Command Store ν Unit) :=
    fun s hs => ⟨settled_ofPlaces.aliases s _ hs, trivial⟩
  cases node with
  | assign name value => exact keeps_assign hev (fun value _ => hset name value) value
  | defineAlias name body => exact (haliases (·.insert name body)).bind fun _ => .pure trivial
  | unsetVariable name =>
    exact keeps_unsetVariable fun s hs => ⟨settled_ofPlaces.bindings s _ hs, trivial⟩
  | unsetAlias name => exact keeps_unsetAlias (haliases (·.erase name))
  | forRange name first last body => exact keeps_forRange hev (fun n => hset name (.int n)) first last body
  | forEach name array body => exact keeps_forEach hev (hset name) array body
  | changeDir path => exact (gives_evalPath hev path).bind fun _ htarget => keeps_changeDir htarget
  | select path =>
    apply (gives_evalTargets hev path).bind
    intro targets htargets
    exact keeps_select fun target htarget => .inr (htargets target htarget)
  | selectMany paths => exact (gives_evalPaths hev paths).bind fun _ htargets => keeps_select htargets
  | clearSelection =>
    exact keeps_clearSelection.bind fun _ => (keeps_emit hstable _).bind fun _ => .pure trivial
  | create creation => exact keeps_createCarefully hev creation
  | delete path => exact keeps_delete hev path
  | deleteSelection => exact keeps_deleteSelection
  | link source dest slot => exact keeps_linkCarefully hev source dest slot
  | unlink source dest => exact keeps_unlinkCarefully hev source dest
  | copy source dest => exact keeps_copy hev source dest
  | focus path => exact keeps_focus hev path
  | loadTemplate file => exact keeps_loadTemplateCarefully hev file
  | _ => exact absurd rfl hnode

theorem keeps_executeCarefully (fuel : Nat) (node : Node) :
    Keeps Settled (executeCarefully (ν := ν) fuel node) := by
  induction fuel generalizing node with
  | zero => exact .throw _
  | succ fuel ih => exact keeps_stepCarefully ih fuel node

end Command

end TwinShell
