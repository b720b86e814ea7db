import TwinShell.Hierarchy.Api
import TwinShell.Hierarchy.Store
import TwinShell.Proofs.Path

/-!
# What a hierarchy is asked

A path that is asked of a hierarchy should be absolute; the sign for the selection is not. Around any hierarchy there is one that answers in the same way and keeps the paths that it was asked about, so that what a session asks can be read off its final state. The paths that a hierarchy lists can be asked about next, and below an absolute path these are absolute too, in memory and behind a service.
-/

namespace TwinShell

/-! ### Absolute paths -/

namespace Path

variable {path : String}

/-- A path that starts at the root. -/
def Absolute (path : String) : Prop := path.toList.head? = some '/'

instance : DecidablePred Absolute := fun _ => inferInstanceAs (Decidable (_ = _))

theorem not_absolute_selection : ¬Absolute selection := by decide

theorem Absolute.ne_selection (h : Absolute path) : path ≠ selection :=
  fun heq => not_absolute_selection (heq ▸ h)

theorem absolute_ofSegments (segments : List String) : Absolute (ofSegments segments) := by
  rw [Absolute, toList_ofSegments, List.head?_cons]

theorem absolute_clean (path : String) : Absolute (clean path) := absolute_ofSegments _

theorem absolute_join (parent name : String) : Absolute (join parent name) := absolute_clean _

theorem absolute_of_isNamespace (h : isNamespace path) : Absolute path := by
  have hall : ∀ path ∈ namespaces, Absolute path := by decide
  exact hall path (isNamespace_iff.1 h)

theorem absolute_of_isUnder {root : String} (hroot : Absolute root) (h : isUnder path root) :
    Absolute path := by
  rcases isUnder_iff.1 h with rfl | ⟨rest, hrest⟩
  · exact hroot
  · rw [Absolute, hrest, List.head?_append, hroot, Option.some_or]

/-- The parent of a path is absolute if the path is, or if it has a single segment. -/
theorem absolute_parent (h : Absolute path ∨ path = selection) : Absolute (parent path) := by
  rcases h with h | rfl
  · rcases isUnder_self_parent path with heq | hunder
    · rw [heq]
      rfl
    · rcases isUnder_iff.1 hunder with heq | ⟨rest, hrest⟩
      · exact heq ▸ h
      · cases hparent : (parent path).toList with
        | nil =>
          obtain ⟨xs, segment, hcut, hsegment⟩ := exists_last_slash (List.mem_of_mem_head? h)
          rw [parent_of_toList hcut hsegment] at hparent
          split at hparent
          · cases hparent
          · rename_i hne
            exact absurd (by simpa using hparent) hne
        | cons c cs =>
          rw [Absolute, hrest, hparent, List.cons_append, List.head?_cons] at h
          rw [Absolute, hparent, List.head?_cons, h]
  · decide

/-- What a path means is absolute, unless it is the sign for the selection. -/
theorem absolute_resolve {raw current previous : String} (hprevious : Absolute previous)
    (h : raw ≠ selection) : Absolute (resolve raw current previous) := by
  have hraw : (if raw = "" then "." else raw) ≠ selection := by
    split
    · decide
    · exact h
  unfold resolve
  dsimp only
  generalize (if raw = "" then "." else raw) = raw at hraw ⊢
  rw [if_neg hraw]
  by_cases hminus : raw = "-"
  · rw [if_pos hminus]
    exact hprevious
  · rw [if_neg hminus]
    exact absolute_clean _

end Path

/-! ### Watched hierarchies -/

/-- A hierarchy and the paths that it was asked about, the latest first. -/
structure Watched (β : Type) where
  inner : β
  asked : List String := []

namespace Watched

variable {β α : Type}

/-- An operation of the hierarchy inside about some paths. -/
def asking (paths : List String) (op : EStateM HierarchyError β α) :
    EStateM HierarchyError (Watched β) α := fun w =>
  match op w.inner with
  | .ok a inner => .ok a ⟨inner, paths ++ w.asked⟩
  | .error e inner => .error e ⟨inner, paths ++ w.asked⟩

instance [Hierarchy β] : Hierarchy (Watched β) where
  describe w := Hierarchy.describe w.inner
  getObject path := asking [path] (Hierarchy.getObject path)
  getChildren path filter := asking [path] (Hierarchy.getChildren path filter)
  createObject path kind payload := asking [path] (Hierarchy.createObject path kind payload)
  updateObject path patch := asking [path] (Hierarchy.updateObject path patch)
  deleteObject path := asking [path] (Hierarchy.deleteObject path)
  linkObject source dest slot := asking [source, dest] (Hierarchy.linkObject source dest slot)
  unlinkObject source dest := asking (source :: dest.toList) (Hierarchy.unlinkObject source dest)
  createTemplate template := asking [] (Hierarchy.createTemplate template)

/-- The hierarchy was asked about absolute paths only. -/
def Rooted (w : Watched β) : Prop := ∀ path ∈ w.asked, Path.Absolute path

instance (w : Watched β) : Decidable w.Rooted := inferInstanceAs (Decidable (∀ _ ∈ _, _))

end Watched

/-- Paths in a listing that are all absolute. -/
def AllAbsolute (listing : List (String × Object)) : Prop := ∀ child ∈ listing, Path.Absolute child.1

/-- Whatever an operation gives has a property. -/
def Returns {σ α : Type} (op : EStateM HierarchyError σ α) (Q : α → Prop) : Prop :=
  ∀ state, match op state with
    | .ok a _ => Q a
    | .error _ _ => True

/-- A hierarchy that lists absolute paths below absolute paths. -/
class Hierarchy.ListsAbsolute (β : Type) [Hierarchy β] : Prop where
  returns_getChildren {path : String} (hpath : Path.Absolute path) (filter : Filter) :
    Returns (Hierarchy.getChildren (β := β) path filter) AllAbsolute

/-! ### Hierarchies in memory -/

instance : Hierarchy.ListsAbsolute Store where
  returns_getChildren {path} hpath filter := by
    intro state
    simp only [Hierarchy.getChildren, Store.looking, Store.getChildren]
    by_cases hmissing : !Path.isNamespace path && !state.objects.contains path
    · simp only [hmissing, if_true]
    · simp only [hmissing, Bool.false_eq_true, if_false]
      intro child hchild
      have hunder := (List.mem_filter.1 hchild).2
      simp only [Store.isChild, Bool.and_eq_true] at hunder
      exact Path.absolute_of_isUnder hpath hunder.1.1.1

/-! ### Hierarchies behind a service -/

section Returns

variable {σ α γ : Type} {Q : γ → Prop}

theorem Returns.bind {x : EStateM HierarchyError σ α} {f : α → EStateM HierarchyError σ γ}
    (h : ∀ a, Returns (f a) Q) : Returns (x >>= f) Q := by
  intro state
  simp only [Bind.bind, EStateM.bind]
  cases x state with
  | ok a state' => exact h a state'
  | error e state' => trivial

end Returns

theorem AllAbsolute.append {xs ys : List (String × Object)} (hxs : AllAbsolute xs)
    (hys : AllAbsolute ys) : AllAbsolute (xs ++ ys) :=
  fun child hchild => (List.mem_append.1 hchild).elim (hxs child) (hys child)

theorem allAbsolute_ite {p : Prop} [Decidable p] {path : String} (hpath : Path.Absolute path)
    (object : Object) : AllAbsolute (if p then [(path, object)] else []) := by
  split
  · exact List.forall_mem_singleton.2 hpath
  · exact nofun

namespace ApiClient

mutual

theorem allAbsolute_nestedIn (filter : Filter) (parent : String) :
    ∀ fields, AllAbsolute (nestedIn filter parent fields)
  | [] => by
    rw [nestedIn]
    exact nofun
  | field :: rest => by
    rw [nestedIn]
    split
    · rename_i found hfound
      exact allAbsolute_nestedInField filter parent field found hfound
    · exact allAbsolute_nestedIn filter parent rest

theorem allAbsolute_nestedInField (filter : Filter) (parent : String) :
    ∀ (field : String × Json) found, nestedInField filter parent field = some found → AllAbsolute found
  | (key, value), found, h => by
    rw [nestedInField] at h
    split at h
    · cases h
      exact allAbsolute_nestedInArray filter parent value
    · cases h

theorem allAbsolute_nestedInArray (filter : Filter) (parent : String) :
    ∀ json, AllAbsolute (nestedInArray filter parent json)
  | .arr items => by
    rw [nestedInArray]
    exact allAbsolute_nestedInItems filter parent items
  | .null | .bool _ | .int _ | .float _ | .str _ | .obj _ => nofun

theorem allAbsolute_nestedInItems (filter : Filter) (parent : String) :
    ∀ items, AllAbsolute (nestedInItems filter parent items)
  | [] => by
    rw [nestedInItems]
    exact nofun
  | item :: rest => by
    rw [nestedInItems]
    exact (allAbsolute_nestedChild filter parent item).append (allAbsolute_nestedInItems filter parent rest)

theorem allAbsolute_nestedChild (filter : Filter) (parent : String) :
    ∀ json, AllAbsolute (nestedChild filter parent json)
  | .obj fields => by
    rw [nestedChild]
    split
    · rename_i name hname
      refine AllAbsolute.append ?_ (allAbsolute_ite (Path.absolute_join parent name) _)
      split
      · exact allAbsolute_nestedIn filter (Path.join parent name) fields
      · exact nofun
    · exact nofun
  | .null | .bool _ | .int _ | .float _ | .str _ | .arr _ => nofun

end

theorem allAbsolute_collectChildren (parent : String) (object : Object) (filter : Filter) :
    AllAbsolute (collectChildren parent object filter) := allAbsolute_nestedIn filter parent _

theorem allAbsolute_collectionItem {root : String} {filter : Filter} {json : Json}
    {found : List (String × Object)} (h : collectionItem root filter json = .ok found) :
    AllAbsolute found := by
  simp only [collectionItem, bind, Except.bind] at h
  split at h
  · cases h
  · cases h
    refine AllAbsolute.append ?_ (allAbsolute_ite (Path.absolute_join root _) _)
    split
    · exact allAbsolute_collectChildren _ _ filter
    · exact nofun

theorem allAbsolute_mapM_collectionItem {root : String} {filter : Filter} {items : List Json}
    {listings : List (List (String × Object))}
    (h : items.mapM (collectionItem root filter) = .ok listings) : AllAbsolute listings.flatten := by
  induction items generalizing listings with
  | nil =>
    cases h
    exact nofun
  | cons item items ih =>
    rw [List.mapM_cons] at h
    simp only [bind, Except.bind] at h
    split at h
    · cases h
    · rename_i listing hlisting
      split at h
      · cases h
      · rename_i rest hrest
        cases h
        exact (allAbsolute_collectionItem hlisting).append (ih hrest)

theorem allAbsolute_collectionItems {root : String} {filter : Filter} {answer : Json}
    {found : List (String × Object)} (h : collectionItems root filter answer = .ok found) :
    AllAbsolute found := by
  simp only [collectionItems, bind, Except.bind] at h
  split at h
  · cases h
  · split at h
    · split at h
      · cases h
      · rename_i listings hlistings
        cases h
        exact allAbsolute_mapM_collectionItem hlistings
    · cases h

instance : Hierarchy.ListsAbsolute ApiClient where
  returns_getChildren {path} hpath filter := by
    show Returns (getChildren path filter) AllAbsolute
    unfold getChildren
    split
    · refine .bind fun answer state => ?_
      cases h : collectionItems path filter answer with
      | ok found => exact allAbsolute_collectionItems h
      | error e => trivial
    · refine .bind fun place => .bind fun answer => .bind fun object state => ?_
      exact allAbsolute_collectChildren path object filter

end ApiClient

end TwinShell
