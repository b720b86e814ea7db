import TwinShell.Proofs.Hierarchy.Connected
import TwinShell.Proofs.Session.Staying

/-!
# Settled sessions

A session should be at a place that is there, and so should be the objects it has selected. By itself this is not an invariant: going up from a deleted object needs a parent that is there, a path is resolved against the previous place, and the sign for the selection must not be the name of an object. A settled session has these three properties too. Moving through the hierarchy, selecting, deleting and copying keep a session settled.
-/

namespace TwinShell

/-- A path in canonical form that is a namespace or names an object. -/
def Store.Stands (s : Store) (path : String) : Prop := Path.Canonical path ∧ s.Exists path

instance (s : Store) (path : String) : Decidable (s.Exists path) := inferInstanceAs (Decidable (_ ∨ _))

instance (s : Store) (path : String) : Decidable (s.Stands path) := inferInstanceAs (Decidable (_ ∧ _))

namespace Session

variable {ν : Type} {s : Session Store ν}

/-- The session is at a place that stands, and so are the selected objects. -/
structure Anchored (s : Session Store ν) : Prop where
  current : s.hierarchy.Stands s.env.currentPath
  selection : ∀ path ∈ s.env.selection, s.hierarchy.Stands path

/-- An anchored session over a connected tree, in which every path can be resolved. -/
structure Settled (s : Session Store ν) : Prop extends Anchored s where
  closed : s.hierarchy.Closed
  no_sign : ¬s.hierarchy.objects.contains Path.selection
  previous : Path.Canonical s.env.previousPath

theorem anchored_iff : s.Anchored ↔
    ∀ path ∈ s.env.currentPath :: s.env.selection, s.hierarchy.Stands path := by
  rw [List.forall_mem_cons]
  exact ⟨fun h => ⟨h.current, h.selection⟩, fun h => ⟨h.1, h.2⟩⟩

theorem settled_iff : s.Settled ↔ (∀ path ∈ s.env.currentPath :: s.env.selection, s.hierarchy.Stands path) ∧
    s.hierarchy.Closed ∧ ¬s.hierarchy.objects.contains Path.selection ∧
    Path.Canonical s.env.previousPath := by
  rw [← anchored_iff]
  exact ⟨fun h => ⟨h.toAnchored, h.closed, h.no_sign, h.previous⟩, fun h => ⟨h.1, h.2.1, h.2.2.1, h.2.2.2⟩⟩

instance (s : Session Store ν) : Decidable s.Anchored := decidable_of_iff _ anchored_iff.symm

instance (s : Session Store ν) : Decidable s.Settled := decidable_of_iff _ settled_iff.symm

def fresh (viewer : ν) (files : Files) : Session Store ν := { hierarchy := .empty, viewer, files }

theorem settled_fresh (viewer : ν) (files : Files) : (fresh viewer files).Settled := by
  have hempty : Store.empty.Exists "/" ∧ Store.empty.Closed ∧
      ¬Store.empty.objects.contains Path.selection := by decide
  exact ⟨⟨⟨.root, hempty.1⟩, nofun⟩, hempty.2.1, hempty.2.2, .root⟩

namespace Settled

/-- Adding or replacing an object leaves the session settled if the object has a parent and is not called like the selection. -/
theorem insert_iff (h : s.Settled) {path : String} {object : Object} :
    Settled { s with hierarchy := ⟨s.hierarchy.objects.insert path object⟩ } ↔
      path ≠ Path.selection ∧ s.hierarchy.parentExists path := by
  have hmono {p : String} (hp : s.hierarchy.Stands p) :
      Store.Stands ⟨s.hierarchy.objects.insert path object⟩ p :=
    ⟨hp.1, hp.2.imp_right fun hstored => (Dict.contains_insert _ _ _ _).2 (.inr hstored)⟩
  constructor
  · intro hafter
    refine ⟨fun heq => hafter.no_sign ?_, (Store.closed_insert h.closed).1 hafter.closed⟩
    exact (Dict.contains_insert _ _ _ _).2 (.inl heq.symm)
  · rintro ⟨hne, hparent⟩
    refine ⟨⟨hmono h.current, fun p hp => hmono (h.selection p hp)⟩,
      (Store.closed_insert h.closed).2 hparent, fun hsign => ?_, h.previous⟩
    rcases (Dict.contains_insert _ _ _ _).1 hsign with heq | hstored
    · exact hne heq.symm
    · exact h.no_sign hstored

theorem goTo (h : s.Settled) {path : String} (hpath : s.hierarchy.Stands path) :
    Settled { s with env := s.env.goTo path } :=
  ⟨⟨hpath, h.selection⟩, h.closed, h.no_sign, h.current.1⟩

theorem select (h : s.Settled) {paths : List String} (hpaths : ∀ path ∈ paths, s.hierarchy.Stands path) :
    Settled { s with env := { s.env with selection := paths } } :=
  ⟨⟨h.current, hpaths⟩, h.closed, h.no_sign, h.previous⟩

/-- A session that leaves a deleted object finds the parent. -/
theorem leave (h : s.Settled) {path : String} (hpath : Path.Canonical path) {deleted : List String}
    {store : Store} (hdelete : s.hierarchy.deleteObject path = .ok (deleted, store)) :
    Settled { s with hierarchy := store, env := s.env.leave path } := by
  obtain ⟨⟨key, hkey, hunder⟩, hkeys⟩ := Store.deleteObject_eq_ok hdelete
  have hstays {p : String} (hp : s.hierarchy.Stands p) (hout : ¬Path.isUnder p path) : store.Stands p :=
    ⟨hp.1, hp.2.imp_right fun hstored => (hkeys p).2 ⟨hout, hstored⟩⟩
  have hparent : store.Exists (Path.parent path) := by
    rcases h.closed.exists_above hpath.ne_empty hunder (.inr hkey) with hspace | hstored
    · exact .inl (Path.isNamespace_parent hspace)
    · refine (Store.parentExists_iff.1 (h.closed path hstored)).elim .inl fun hstored => ?_
      by_cases hroot : path = "/"
      · exact .inl (hroot ▸ by decide)
      · exact .inr ((hkeys _).2 ⟨hpath.not_isUnder_parent hroot, hstored⟩)
  refine ⟨⟨?_, fun p hp => ?_⟩, Store.closed_delete h.closed hdelete,
    fun hsign => h.no_sign ((hkeys _).1 hsign).2, h.previous⟩
  · by_cases hinside : Path.isUnder s.env.currentPath path
    · simp only [Environment.leave, hinside, if_true]
      exact ⟨hpath.parent, hparent⟩
    · simp only [Environment.leave, hinside]
      exact hstays h.current hinside
  · obtain ⟨hselected, hout⟩ := List.mem_filter.1 hp
    exact hstays (h.selection p hselected) (by simpa using hout)

end Settled

end Session

namespace Command

open Session (Settled)

variable {ν α : Type} {P : Session Store ν → Prop} {Q : α → Prop}

/-! ### Operations on a store -/

theorem keeps_looking (f : Store → Except HierarchyError α) :
    Keeps P (onHierarchy (Store.looking f)) := by
  intro s hs
  simp only [onHierarchy, Store.looking]
  cases f s.hierarchy with
  | ok a => exact ⟨hs, trivial⟩
  | error e => exact hs

theorem eq_ok_of_map {result : Except HierarchyError Store} {a : Unit} {store : Store}
    (h : ((), ·) <$> result = .ok (a, store)) : result = .ok store := by
  cases result with
  | error e => cases h
  | ok store' =>
    cases h
    rfl

theorem Gives.changing {f : Store → Except HierarchyError (α × Store)}
    (h : ∀ s a store, P s → f s.hierarchy = .ok (a, store) → P { s with hierarchy := store } ∧ Q a) :
    Gives P (onHierarchy (Store.changing f)) Q := by
  intro s hs
  simp only [onHierarchy, Store.changing]
  cases hf : f s.hierarchy with
  | ok result => exact h s result.1 result.2 hs hf
  | error e => exact hs

theorem settled_stable : Stable (Settled (ν := ν)) where
  output _ _ h := ⟨⟨h.current, h.selection⟩, h.closed, h.no_sign, h.previous⟩
  viewer _ _ h := ⟨⟨h.current, h.selection⟩, h.closed, h.no_sign, h.previous⟩
  reads _ _ h := ⟨⟨h.current, h.selection⟩, h.closed, h.no_sign, h.previous⟩
  getObject _ := keeps_looking _
  getChildren _ _ := keeps_looking _

/-- An update replaces an object that is there. -/
theorem keeps_updateObject (path : String) (patch : Object) :
    Keeps Settled (onHierarchy (Hierarchy.updateObject path patch) : Command Store ν Object) := by
  refine Gives.changing fun s object store hs hupdate => ⟨?_, trivial⟩
  obtain ⟨hstored, rfl⟩ := Store.updateObject_eq_ok hupdate
  refine hs.insert_iff.2 ⟨fun heq => hs.no_sign (heq ▸ hstored), hs.closed path hstored⟩

theorem settled_steady : Steady (Settled (ν := ν)) where
  toStable := settled_stable
  updateObject := keeps_updateObject
  settings _ _ h := ⟨⟨h.current, h.selection⟩, h.closed, h.no_sign, h.previous⟩
  exitRequested _ _ h := ⟨⟨h.current, h.selection⟩, h.closed, h.no_sign, h.previous⟩
  scriptDepth _ _ h := ⟨⟨h.current, h.selection⟩, h.closed, h.no_sign, h.previous⟩

theorem settled_ofPlaces : OfPlaces (Settled (ν := ν)) where
  toSteady := settled_steady
  bindings _ _ h := ⟨⟨h.current, h.selection⟩, h.closed, h.no_sign, h.previous⟩
  aliases _ _ h := ⟨⟨h.current, h.selection⟩, h.closed, h.no_sign, h.previous⟩

theorem pathExists_eq (path : String) (s : Session Store ν) :
    pathExists path s = .ok (decide (s.hierarchy.Exists path)) s := by
  by_cases hspace : Path.isNamespace path
  · have hexists : s.hierarchy.Exists path := .inl hspace
    rw [pathExists, if_pos hspace, decide_eq_true hexists]
    rfl
  · have hexists : s.hierarchy.Exists path ↔ s.hierarchy.objects.contains path :=
      or_iff_right hspace
    rw [pathExists, if_neg hspace]
    simp only [hexists, Dict.contains, onHierarchy, Hierarchy.exists, Hierarchy.getObject,
      Store.looking, Store.getObject]
    cases s.hierarchy.objects.get? path <;> rfl

/-- A check for a path changes nothing. -/
theorem requirePath_cases (path : String) (s : Session Store ν) :
    requirePath path s = .ok () s ∧ s.hierarchy.Exists path ∨
      ∃ stop, requirePath path s = .error stop s := by
  simp only [requirePath, bind, EStateM.bind, pathExists_eq]
  by_cases hexists : s.hierarchy.Exists path
  · exact .inl ⟨by simp only [hexists]; rfl, hexists⟩
  · exact .inr ⟨.failed (.path (.missing path)), by simp only [hexists]; rfl⟩

theorem forM_requirePath_cases (paths : List String) (s : Session Store ν) :
    paths.forM requirePath s = .ok () s ∧ (∀ path ∈ paths, s.hierarchy.Exists path) ∨
      ∃ stop, paths.forM requirePath s = .error stop s := by
  induction paths with
  | nil => exact .inl ⟨rfl, nofun⟩
  | cons path paths ih =>
    have hcons : (path :: paths).forM requirePath s =
        (requirePath path >>= fun _ => paths.forM requirePath) s := rfl
    rw [hcons]
    simp only [bind, EStateM.bind]
    rcases requirePath_cases path s with ⟨hok, hexists⟩ | ⟨stop, hstop⟩
    · rw [hok]
      exact ih.imp_left fun hrest => ⟨hrest.1, List.forall_mem_cons.2 ⟨hexists, hrest.2⟩⟩
    · rw [hstop]
      exact .inr ⟨stop, rfl⟩

end Command

end TwinShell
