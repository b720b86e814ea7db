import TwinShell.Proofs.Session.Settled

/-!
# Commands that move

Going somewhere, selecting, deleting and copying keep a session settled. The paths that these commands are given are in canonical form, since they were resolved where the session is, or are the sign for the selection; a command goes to a path or selects it only after it has checked that the path exists.
-/

namespace TwinShell

namespace Command

open Session (Settled)

variable {ν : Type}

/-- What a command can be told by a path: the selection, or a path in canonical form. -/
def Designates (path : String) : Prop := path = Path.selection ∨ Path.Canonical path

/-- A path that was asked for and exists stands. -/
theorem Designates.stands {s : Session Store ν} (hs : s.Settled) {path : String}
    (hpath : Designates path) (hexists : s.hierarchy.Exists path) : s.hierarchy.Stands path := by
  rcases hpath with rfl | hcanonical
  · exact absurd hexists fun h => h.elim Path.isNamespace_selection hs.no_sign
  · exact ⟨hcanonical, hexists⟩

/-! ### Paths -/

theorem gives_getEnv : Gives Settled (getEnv : Command Store ν Environment) fun env =>
    Path.Canonical env.currentPath ∧ Path.Canonical env.previousPath ∧
      ∀ path ∈ env.selection, Path.Canonical path :=
  fun _ hs => ⟨hs, hs.current.1, hs.previous, fun path hpath => (hs.selection path hpath).1⟩

theorem gives_resolve (raw : String) :
    Gives Settled (resolve raw : Command Store ν String) Designates := by
  apply gives_getEnv.bind
  intro env henv
  refine .pure ?_
  by_cases hsign : Path.resolve raw env.currentPath env.previousPath = Path.selection
  · exact .inl hsign
  · exact .inr (Path.canonical_resolve henv.1 henv.2.1 hsign)

section Nested

variable {ev : Node → Command Store ν Value} (hev : ∀ node, Keeps Settled (ev node))
include hev

theorem gives_evalPath (node : Node) : Gives Settled (evalPath ev node) Designates :=
  (keeps_evalRawPath hev node).bind fun raw => gives_resolve raw

theorem gives_evalPaths (nodes : List Node) :
    Gives Settled (evalPaths ev nodes) fun paths => ∀ path ∈ paths, Designates path := by
  induction nodes with
  | nil => exact .pure nofun
  | cons node rest ih =>
    apply (gives_evalPath hev node).bind
    intro path hpath
    apply ih.bind
    intro paths hpaths
    refine .pure ?_
    exact List.forall_mem_cons.2 ⟨hpath, hpaths⟩

theorem gives_evalTargets (node : Node) :
    Gives Settled (evalTargets ev node) fun paths => ∀ path ∈ paths, Path.Canonical path := by
  apply (gives_evalPath hev node).bind
  intro target htarget
  refine .ite (fun hne => .pure ?_) fun _ => ?_
  · rintro path hpath
    rw [List.mem_singleton.1 hpath]
    exact htarget.resolve_left hne
  · apply gives_getEnv.bind
    intro env henv
    refine .ite (fun _ => .fail _) fun _ => ?_
    exact .pure henv.2.2

theorem gives_evalTarget (node : Node) : Gives Settled (evalTarget ev node) Path.Canonical := by
  apply (gives_evalTargets hev node).bind
  intro targets htargets
  split
  · exact .pure (htargets _ List.mem_cons_self)
  · exact .fail _
  · exact .fail _

end Nested

/-! ### Going and selecting -/

theorem keeps_goTo {path : String} (hpath : Designates path) : Keeps Settled (do
    requirePath path
    modifyEnv (·.goTo path)
    return Value.null : Command Store ν Value) :=
  Gives.checked (requirePath_cases path) fun _ hs hexists =>
    ⟨hs.goTo (hpath.stands hs hexists), trivial⟩

theorem keeps_changeDir {target : String} (htarget : Designates target) :
    Keeps Settled (changeDir target : Command Store ν Value) := by
  refine .ite (fun _ => gives_getEnv.bind fun env henv => ?_) fun _ => keeps_goTo htarget
  split
  · rename_i only honly
    exact keeps_goTo (.inr (henv.2.2 only (honly ▸ List.mem_cons_self)))
  · exact Gives.bind (Q := fun _ => False) (.fail _) nofun

theorem keeps_select {targets : List String} (htargets : ∀ path ∈ targets, Designates path) :
    Keeps Settled (select targets : Command Store ν Value) := by
  refine Gives.checked (forM_requirePath_cases targets) fun s hs hexists => ?_
  have hstands : ∀ path ∈ targets, s.hierarchy.Stands path := fun path hpath =>
    (htargets path hpath).stands hs (hexists path hpath)
  rcases targets with _ | ⟨only, _ | ⟨second, rest⟩⟩
  · exact ⟨settled_stable.output _ _ (hs.select hstands), trivial⟩
  · have hthere := hs.goTo (hstands only List.mem_cons_self)
    exact ⟨settled_stable.output _ _ (hthere.select hstands), trivial⟩
  · exact ⟨settled_stable.output _ _ (hs.select hstands), trivial⟩

theorem keeps_clearSelection :
    Keeps Settled (modifyEnv fun env => { env with selection := [] } : Command Store ν Unit) :=
  fun _ hs => ⟨hs.select nofun, trivial⟩

/-! ### Deleting -/

section Deleting

variable [Viewer ν]

theorem keeps_deleteOne {target : String} (htarget : Path.Canonical target) :
    Keeps Settled (deleteOne target : Command Store ν (List String)) := by
  have hrest (deleted : List String) : Keeps Settled (do
      notify (Message.delete (viewerId target))
      emitAll (deleted.map (· ++ " deleted"))
      return deleted : Command Store ν (List String)) :=
    (keeps_notify settled_stable _).bind fun _ =>
      (keeps_emitAll settled_stable _).bind fun _ => .pure trivial
  intro s hs
  -- Between the deletion and the move out of it the session is not settled.
  cases hdelete : s.hierarchy.deleteObject target with
  | error e =>
    simp only [deleteOne, bind, EStateM.bind, onHierarchy, Hierarchy.deleteObject, Store.changing, hdelete]
    exact hs
  | ok result =>
    obtain ⟨deleted, store⟩ := result
    simp only [deleteOne, bind, EStateM.bind, onHierarchy, Hierarchy.deleteObject, Store.changing, hdelete]
    exact hrest deleted _ (hs.leave htarget hdelete)

theorem keeps_deleteEach {targets : List String} (htargets : ∀ path ∈ targets, Path.Canonical path) :
    Keeps Settled (deleteEach targets : Command Store ν (List String)) := by
  induction targets with
  | nil => exact .pure trivial
  | cons target rest ih =>
    rw [List.forall_mem_cons] at htargets
    exact (keeps_deleteOne htargets.1).bind fun _ => (ih htargets.2).bind fun _ => .pure trivial

theorem keeps_delete {ev : Node → Command Store ν Value} (hev : ∀ node, Keeps Settled (ev node))
    (path : Node) : Keeps Settled (delete ev path) :=
  (gives_evalTargets hev path).bind fun _ htargets =>
    (keeps_deleteEach htargets).bind fun _ => .pure trivial

theorem keeps_deleteSelection : Keeps Settled (deleteSelection : Command Store ν Value) := by
  apply gives_getEnv.bind
  intro env henv
  apply keeps_clearSelection.bind
  intro _
  refine .ite (fun _ => .fail _) fun _ => ?_
  exact (keeps_deleteEach henv.2.2).bind fun _ => .pure trivial

theorem keeps_focus {ev : Node → Command Store ν Value} (hev : ∀ node, Keeps Settled (ev node))
    (path : Option Node) : Keeps Settled (focus ev path) := by
  apply keeps_requireViewer.bind
  intro _
  cases path with
  | none => exact (keeps_send settled_stable _).bind fun _ => .pure trivial
  | some path =>
    apply (gives_evalTarget hev path).bind
    intro target htarget
    refine Gives.checked (requirePath_cases target) fun s hs hexists => ?_
    simp only [bind, EStateM.bind, send, onViewer]
    cases Viewer.send (Message.focus (viewerId target)) s.viewer with
    | ok a viewer => exact ⟨(settled_stable.viewer s viewer hs).goTo ⟨htarget, hexists⟩, trivial⟩
    | error e viewer => exact settled_stable.viewer s viewer hs

end Deleting

/-! ### Copying -/

theorem keeps_createObject {path : String} (hpath : path ≠ Path.selection) (kind : Kind)
    (payload : Object) :
    Keeps Settled (onHierarchy (Hierarchy.createObject path kind payload) : Command Store ν Object) := by
  refine Gives.changing fun s object store hs hcreate => ⟨?_, trivial⟩
  obtain ⟨hparent, rfl⟩ := Store.createObject_eq_ok hcreate
  exact hs.insert_iff.2 ⟨hpath, hparent⟩

/-- A template whose slug is a single name goes into a namespace. -/
theorem keeps_createTemplate {template : Object} {slug : String}
    (hget : template.get? "slug" = some (.str slug)) (hslug : '/' ∉ slug.toList) :
    Keeps Settled (onHierarchy (Hierarchy.createTemplate template) : Command Store ν Unit) := by
  refine Gives.changing fun s _ store hs hcreate => ⟨?_, trivial⟩
  obtain ⟨path, hpath, rfl⟩ := Store.createTemplate_eq_ok (eq_ok_of_map hcreate)
  simp only [Store.templatePath?, hget, Option.bind_some, Json.text?, Option.map_eq_some_iff] at hpath
  obtain ⟨family, -, rfl⟩ := hpath
  refine hs.insert_iff.2 ⟨Path.join_ne_selection _ _, Store.parentExists_iff.2 (.inl ?_)⟩
  exact Path.isNamespace_parent_join (by cases family <;> decide) hslug

theorem keeps_copy {ev : Node → Command Store ν Value} (hev : ∀ node, Keeps Settled (ev node))
    (source dest : Node) : Keeps Settled (copy ev source dest) := by
  apply (keeps_evalTarget hev source).bind
  intro source
  apply (keeps_evalText hev dest).bind
  intro dest
  extract_lets collection rest
  have hrest : ∀ target, Keeps Settled (rest target) := by
    intro target
    refine .ite (fun _ => .fail _) fun hparent => ?_
    apply (settled_stable.getObject source).bind
    intro object
    extract_lets fields done
    have hdone : ∀ r, Keeps Settled (done r) := fun _ =>
      (keeps_emit settled_stable _).bind fun _ => .pure trivial
    refine .ite (fun htags => ?_) fun _ => ?_
    · have hne : target ≠ Path.selection := by
        rintro rfl
        rw [htags] at hparent
        exact hparent (by decide)
      exact (keeps_createObject hne .tag fields).bind fun _ => hdone ()
    · have hget : fields.get? "slug" = some (.str (Path.baseName target)) :=
        (Dict.get?_insert _ _ _ _).trans (if_pos rfl)
      exact (keeps_createTemplate hget (Path.not_slash_baseName target)).bind hdone
  clear_value rest
  refine .ite (fun _ => .fail _) fun _ => .ite (fun _ => ?_) fun _ => ?_
  · exact (gives_resolve dest).bind fun target _ => hrest target
  · exact Keeps.bind (.pure trivial) hrest

end Command

end TwinShell
