import Mathlib.Data.List.Induction
import Mathlib.Data.List.Nodup
import TwinShell.Proofs.Hierarchy.Footprint
import TwinShell.Proofs.Session.Atomic

/-!
# Deleting the selection

The selected objects are deleted one after the other, each with everything below it. A selected path at or below an earlier one is gone when its turn comes, and so deleting it fails. The selection is given up before anything is deleted, so that leaving a deleted object cannot drop such a path from the selection in time. Where no selected path is at or below an earlier one, everything at or below a selected path is deleted, and each deleted path is reported once.
-/

namespace TwinShell

/-- No path is at or below an earlier one. -/
def NoneInsideEarlier (targets : List String) : Prop :=
  targets.Pairwise fun earlier later => ¬Path.isUnder later earlier

instance (targets : List String) : Decidable (NoneInsideEarlier targets) := inferInstanceAs (Decidable (List.Pairwise _ _))

theorem exists_inside_earlier {targets : List String} (h : ¬NoneInsideEarlier targets) :
    ∃ before target after, targets = before ++ target :: after ∧ NoneInsideEarlier before ∧
      ∃ earlier ∈ before, Path.isUnder target earlier := by
  -- The first such path is looked for from the end, where it either comes last or is found earlier.
  induction targets using List.reverseRecOn with
  | nil => exact absurd .nil h
  | append_singleton targets last ih =>
    by_cases hbefore : NoneInsideEarlier targets
    · refine ⟨targets, last, [], rfl, hbefore, Classical.byContradiction fun hlast => h ?_⟩
      refine List.pairwise_append.2 ⟨hbefore, List.pairwise_singleton _ _, fun earlier hearlier other hother => ?_⟩
      rw [List.mem_singleton.1 hother]
      exact fun hunder => hlast ⟨earlier, hearlier, hunder⟩
    · obtain ⟨before, target, after, rfl, hnone, hearlier⟩ := ih hbefore
      exact ⟨before, target, after ++ [last], by simp, hnone, hearlier⟩

namespace Store

/-- What is at or below some paths was deleted and nothing else, and each deleted path was reported once. -/
structure Deletes (targets : List String) (before after : Store) (deleted : List String) : Prop where
  left : ∀ key, after.objects.get? key =
    if targets.any (Path.isUnder key) then none else before.objects.get? key
  reported : ∀ key, key ∈ deleted ↔ before.objects.contains key ∧ targets.any (Path.isUnder key)
  once : deleted.Nodup

variable {before between after : Store} {targets rest deleted deleted' : List String} {target : String}

theorem any_isUnder_singleton (key target : String) : [target].any (Path.isUnder key) = Path.isUnder key target :=
  Bool.or_false _

namespace Deletes

theorem nil (s : Store) : Deletes [] s s [] where
  left _ := rfl
  reported _ := iff_of_false List.not_mem_nil fun h => Bool.false_ne_true h.2
  once := .nil

theorem contains_iff (h : Deletes targets before after deleted) {key : String} :
    after.objects.contains key ↔ before.objects.contains key ∧ ¬targets.any (Path.isUnder key) := by
  rw [Dict.contains, Dict.contains, h.left]
  split
  · rename_i hunder
    simp [hunder]
  · rename_i hunder
    exact (and_iff_left hunder).symm

theorem cons (hfirst : Deletes [target] before between deleted) (hrest : Deletes rest between after deleted') :
    Deletes (target :: rest) before after (deleted ++ deleted') where
  left key := by
    rw [hrest.left, hfirst.left, any_isUnder_singleton, List.any_cons]
    cases Path.isUnder key target <;> cases rest.any (Path.isUnder key) <;> rfl
  reported key := by
    rw [List.mem_append, hfirst.reported, hrest.reported, hfirst.contains_iff, any_isUnder_singleton, List.any_cons]
    cases Path.isUnder key target <;> simp
  once := by
    refine List.nodup_append'.2 ⟨hfirst.once, hrest.once, fun key hkey hkey' => ?_⟩
    have hgone := (hrest.reported key).1 hkey'
    exact (hfirst.contains_iff.1 hgone.1).2 ((hfirst.reported key).1 hkey).2

end Deletes

theorem deleteObject_of_contains {s : Store} (hstored : s.objects.contains target) :
    ∃ s', s.deleteObject target = .ok (s.subtree target, s') ∧ Deletes [target] s s' (s.subtree target) := by
  have hsome : (s.subtree target).isEmpty = false :=
    List.isEmpty_eq_false_iff_exists_mem.2 ⟨target, mem_subtree.2 ⟨hstored, Path.isUnder_refl target⟩⟩
  have hdelete : s.deleteObject target =
      .ok (s.subtree target, ⟨(s.subtree target).foldl Dict.erase s.objects⟩) := by
    rw [deleteObject, hsome]
    rfl
  refine ⟨_, hdelete, fun key => ?_, fun key => ?_, s.objects.nodup_keys.filter _⟩
  · rw [(deleteObject_get? hdelete).2, any_isUnder_singleton]
  · rw [mem_subtree, any_isUnder_singleton]

theorem deleteObject_of_not_contains {s : Store} (hgone : ∀ key, Path.isUnder key target → ¬s.objects.contains key) :
    s.deleteObject target = .error (.notFound target) := by
  have hnone : (s.subtree target).isEmpty := by
    refine List.isEmpty_iff.2 (List.eq_nil_iff_forall_not_mem.2 fun key hkey => ?_)
    obtain ⟨hstored, hunder⟩ := mem_subtree.1 hkey
    exact hgone key hunder hstored
  rw [deleteObject, if_pos hnone]

end Store

namespace Command

open Store (Deletes)

variable {ν : Type} [Viewer ν] {s s₁ s₂ : Session Store ν} {target : String} {targets before rest deleted : List String}

/-- Deleting a stored object. -/
theorem deleteOne_eq_ok (hstored : s.hierarchy.objects.contains target) : ∃ deleted s',
    deleteOne target s = .ok deleted s' ∧ Deletes [target] s.hierarchy s'.hierarchy deleted ∧
      s'.env = s.env.leave target := by
  obtain ⟨store, hdelete, hdeletes⟩ := Store.deleteObject_of_contains hstored
  have hremove : onHierarchy (Hierarchy.deleteObject target) s =
      .ok (s.hierarchy.subtree target) { s with hierarchy := store } := changing_eq_ok hdelete
  have hleave : modifyEnv (·.leave target) { s with hierarchy := store } =
      .ok () { s with hierarchy := store, env := s.env.leave target } := rfl
  obtain ⟨viewer, hnotify⟩ := notify_eq_ok (Message.delete (viewerId target))
    { s with hierarchy := store, env := s.env.leave target }
  refine ⟨s.hierarchy.subtree target, { s with
    hierarchy := store, env := s.env.leave target, viewer
    output := s.output ++ ((s.hierarchy.subtree target).map (· ++ " deleted")).toArray }, ?_, hdeletes, rfl⟩
  rw [deleteOne, bind_of_ok hremove, bind_of_ok hleave, bind_of_ok hnotify, bind_of_ok (emitAll_eq_ok _ _)]
  rfl

/-- Deleting stored objects, none of them at or below an earlier one. -/
theorem deleteEach_eq_ok (hstored : ∀ target ∈ targets, s.hierarchy.objects.contains target)
    (hnone : NoneInsideEarlier targets) (hselection : s.env.selection = []) : ∃ deleted s',
    deleteEach targets s = .ok deleted s' ∧ Deletes targets s.hierarchy s'.hierarchy deleted ∧
      s'.env.selection = [] := by
  induction targets generalizing s with
  | nil => exact ⟨[], s, rfl, .nil _, hselection⟩
  | cons target rest ih =>
    obtain ⟨htarget, hrest⟩ := List.forall_mem_cons.1 hstored
    obtain ⟨houtside, hnone⟩ := List.pairwise_cons.1 hnone
    obtain ⟨first, s₁, hfirst, hfirstdeletes, henv⟩ := deleteOne_eq_ok htarget
    have hstill : ∀ other ∈ rest, s₁.hierarchy.objects.contains other := by
      intro other hother
      refine hfirstdeletes.contains_iff.2 ⟨hrest other hother, ?_⟩
      rw [Store.any_isUnder_singleton]
      exact houtside other hother
    have hunselected : s₁.env.selection = [] := by
      rw [henv, Environment.leave, hselection]
      rfl
    obtain ⟨others, s₂, hothers, hothersdeletes, hempty⟩ := ih hstill hnone hunselected
    refine ⟨first ++ others, s₂, ?_, hfirstdeletes.cons hothersdeletes, hempty⟩
    rw [deleteEach, bind_of_ok hfirst, bind_of_ok hothers]
    rfl

theorem deleteEach_append_eq_error {stop : Stop} (hbefore : deleteEach before s = .ok deleted s₁)
    (hrest : deleteEach rest s₁ = .error stop s₂) : deleteEach (before ++ rest) s = .error stop s₂ := by
  induction before generalizing s deleted with
  | nil =>
    cases hbefore
    exact hrest
  | cons target before ih =>
    obtain ⟨first, s', hfirst, hthen⟩ := bind_eq_ok hbefore
    obtain ⟨others, s'', hothers, hpure⟩ := bind_eq_ok hthen
    cases hpure
    rw [List.cons_append, deleteEach, bind_of_ok hfirst, bind_of_error (ih hothers)]

end Command

namespace Session

open Store (Deletes)

variable {ν : Type} [Viewer ν] {s : Session Store ν}

/-- Deleting a selection of stored objects deletes everything at or below them, reports each deleted path once and leaves nothing selected, if no selected path is at or below an earlier one. Otherwise it fails at the first path that is, and has deleted what is at or below the paths before. -/
theorem eval_delete_selection (hselected : s.env.selection ≠ [])
    (hstored : ∀ path ∈ s.env.selection, s.hierarchy.objects.contains path) :
    (NoneInsideEarlier s.env.selection → ∃ deleted s',
      eval .deleteSelection s = .ok (Command.textList deleted) s' ∧
      Deletes s.env.selection s.hierarchy s'.hierarchy deleted ∧ s'.env.selection = []) ∧
    (¬NoneInsideEarlier s.env.selection → ∃ before path after deleted s',
      s.env.selection = before ++ path :: after ∧ NoneInsideEarlier before ∧
      (∃ earlier ∈ before, Path.isUnder path earlier) ∧
      eval .deleteSelection s = .error (.failed (.hierarchy (.notFound path))) s' ∧
      Deletes before s.hierarchy s'.hierarchy deleted ∧ s'.env.selection = []) := by
  let cleared : Session Store ν := { s with env := { s.env with selection := [] } }
  have heval : eval .deleteSelection s =
      (do return Command.textList (← Command.deleteEach s.env.selection)) cleared := by
    rw [eval_eq_step]
    show (if s.env.selection.isEmpty then Command.failRuntime .nothingSelected
      else do return Command.textList (← Command.deleteEach s.env.selection) : Command Store ν Value) cleared = _
    rw [if_neg (mt List.isEmpty_iff.1 hselected)]
  rw [heval]
  constructor
  · intro hnone
    obtain ⟨deleted, s', hdelete, hdeletes, hempty⟩ := Command.deleteEach_eq_ok (s := cleared) hstored hnone rfl
    exact ⟨deleted, s', Command.bind_of_ok hdelete, hdeletes, hempty⟩
  · intro hinside
    obtain ⟨before, path, after, hsplit, hnone, earlier, hearlier, hunder⟩ := exists_inside_earlier hinside
    obtain ⟨deleted, s', hdelete, hdeletes, hempty⟩ := Command.deleteEach_eq_ok (s := cleared)
      (fun target htarget => hstored target (hsplit ▸ List.mem_append_left _ htarget)) hnone rfl
    have hfail : Command.deleteEach (path :: after) s' =
        .error (.failed (.hierarchy (.notFound path))) s' := by
      refine Command.bind_of_error (Command.bind_of_error (Command.changing_eq_error ?_))
      refine Store.deleteObject_of_not_contains fun key hkey hcontains => ?_
      refine (hdeletes.contains_iff.1 hcontains).2 (List.any_eq_true.2 ⟨earlier, hearlier, ?_⟩)
      exact Path.isUnder_trans hkey hunder
    refine ⟨before, path, after, deleted, s', hsplit, hnone, ⟨earlier, hearlier, hunder⟩, ?_, hdeletes, hempty⟩
    rw [hsplit, Command.bind_of_error (Command.deleteEach_append_eq_error hdelete hfail)]

/-- A room and a rack beside it are deleted with the device in the room. -/
theorem eval_delete_selection_rooms : ∃ (s s' : Session Store Recorder) (deleted : List String),
    s.env.selection ≠ [] ∧ (∀ path ∈ s.env.selection, s.hierarchy.objects.contains path) ∧
    NoneInsideEarlier s.env.selection ∧ eval .deleteSelection s = .ok (Command.textList deleted) s' ∧
    Deletes ["/Physical/a/r", "/Physical/a/q"] s.hierarchy s'.hierarchy deleted ∧ "/Physical/a/r/d" ∈ deleted := by
  obtain ⟨s, hs⟩ : ∃ s : Session Store Recorder, s = {
      hierarchy := (((Store.empty.insert "/Physical/a" .empty).insert "/Physical/a/r" .empty).insert
        "/Physical/a/r/d" .empty).insert "/Physical/a/q" .empty, viewer := {},
      env := { selection := ["/Physical/a/r", "/Physical/a/q"] } } := ⟨_, rfl⟩
  have hselection : s.env.selection = ["/Physical/a/r", "/Physical/a/q"] := by rw [hs]
  have hselected : s.env.selection ≠ [] := by rw [hselection]; exact List.cons_ne_nil _ _
  have hstored : ∀ path ∈ s.env.selection, s.hierarchy.objects.contains path := by
    rw [hs]
    decide
  have hnone : NoneInsideEarlier s.env.selection := by
    rw [hselection]
    decide
  obtain ⟨deleted, s', heval, hdeletes, -⟩ := (eval_delete_selection hselected hstored).1 hnone
  rw [hselection] at hdeletes
  have hdevice : "/Physical/a/r/d" ∈ deleted := by
    refine (hdeletes.reported _).2 ⟨?_, by decide⟩
    rw [hs]
    decide
  exact ⟨s, s', deleted, hselected, hstored, hnone, heval, hdeletes, hdevice⟩

/-- A room that is selected together with a rack in it cannot be deleted that way: the rack is gone with the room. -/
theorem delete_selection_fails_inside : ∃ s s' : Session Store Recorder,
    s.env.selection = ["/Physical/a", "/Physical/a/b"] ∧
    (∀ path ∈ s.env.selection, s.hierarchy.objects.contains path) ∧
    eval .deleteSelection s = .error (.failed (.hierarchy (.notFound "/Physical/a/b"))) s' := by
  let s : Session Store Recorder := {
    hierarchy := (Store.empty.insert "/Physical/a" .empty).insert "/Physical/a/b" .empty, viewer := {},
    env := { selection := ["/Physical/a", "/Physical/a/b"] } }
  exact ⟨s, _, rfl, by decide, rfl⟩

end Session

end TwinShell
