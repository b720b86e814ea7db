import TwinShell.Proofs.Hierarchy.Connected

/-!
# What an operation touches

The operations on a store are given as functions to a new store, so that one that fails leaves the store as it was. A store that lives in memory is changed in place instead: an object is put or taken out at a time, and what was done before a failure is not undone. Here the operations are written in this way, step by step. They come to the same because nothing can fail once the first object has been touched: linking an object into a slot moves a whole subtree before it updates the moved object, and that object is there. What a successful operation changes lies in its footprint.
-/

namespace TwinShell

namespace Store

/-- A step on a store. One that fails keeps the changes made before. -/
abbrev Step (α : Type) : Type := EStateM HierarchyError Store α

namespace InPlace

def put (path : String) (object : Object) : Step Unit :=
  modify fun s => ⟨s.objects.insert path object⟩

def remove (path : String) : Step Unit := modify fun s => ⟨s.objects.erase path⟩

def moveOne (source target old : String) : Step Unit := do
  match (← get).objects.get? old with
  | some object =>
    remove old
    put (movedPath source target old) object
  | none => return ()

/-- Moves everything at or below `source`, one object after the other. -/
def moveSubtree (source target : String) : Step Unit := do
  let s ← get
  if s.objects.contains target then throw (.alreadyExists target)
  else (s.subtree source).forM (moveOne source target)

def create (path : String) (kind : Kind) (payload : Object) : Step Object := do
  let s ← get
  if s.objects.contains path then throw (.alreadyExists path)
  else if !s.parentExists path then throw (.notFound (Path.parent path))
  else
    put path (newObject path kind payload)
    return newObject path kind payload

def update (path : String) (patch : Object) : Step Object := do
  match (← get).objects.get? path with
  | some object =>
    put path (applyPatch object patch)
    return applyPatch object patch
  | none => throw (.notFound path)

/-- Deletes an object with everything below it, one path after the other. -/
def delete (path : String) : Step (List String) := do
  let deleted := (← get).subtree path
  if deleted.isEmpty then throw (.notFound path)
  else
    deleted.forM remove
    return deleted

/-- Moves a stray object below `dest`, and then puts it into a slot. -/
def link (source dest : String) (slot : Option String) : Step Unit := do
  let s ← get
  if !Path.isUnder source Path.stray || !s.objects.contains source then throw (.notStray source)
  else if !s.objects.contains dest then throw (.notFound dest)
  else
    let target := Path.join dest (Path.baseName source)
    moveSubtree source target
    match slot with
    | some slot =>
      let _ ← update target (slotPatch slot)
    | none => return ()

def unlink (source : String) (dest : Option String) : Step Unit := do
  let s ← get
  if !Path.isUnder source Path.physical || Path.isUnder source Path.stray then
    throw (.notPhysical source)
  else if !s.objects.contains source then throw (.notFound source)
  else moveSubtree source (Path.join (dest.getD Path.stray) (Path.baseName source))

def addTemplate (template : Object) : Step Unit := do
  match (template.get? "slug").bind Json.text? with
  | none => throw .noSlug
  | some slug =>
    match TemplateFamily.of? template with
    | none => throw .badTemplateCategory
    | some family =>
      let target := Path.join (templateNamespace family) slug
      if (← get).objects.contains target then throw (.alreadyExists target)
      else put target template

/-! ### Step by step it comes to the same -/

theorem get_bind {α : Type} (f : Store → Step α) (s : Store) : (get >>= f) s = f s s := rfl

theorem moveOne_eq (source target old : String) (s : Store) :
    moveOne source target old s = .ok () ⟨Store.moveOne source target s.objects old⟩ := by
  rw [moveOne, get_bind, Store.moveOne]
  cases s.objects.get? old <;> rfl

theorem forM_moveOne_eq (source target : String) (olds : List String) (s : Store) :
    olds.forM (moveOne source target) s =
      .ok () ⟨olds.foldl (Store.moveOne source target) s.objects⟩ := by
  induction olds generalizing s with
  | nil => rfl
  | cons old olds ih =>
    have hcons : (old :: olds).forM (moveOne source target) s =
        (moveOne source target old >>= fun _ => olds.forM (moveOne source target)) s := rfl
    rw [hcons]
    simp only [bind, EStateM.bind, moveOne_eq]
    exact ih _

theorem forM_remove_eq (paths : List String) (s : Store) :
    paths.forM remove s = .ok () ⟨paths.foldl Dict.erase s.objects⟩ := by
  induction paths generalizing s with
  | nil => rfl
  | cons path paths ih => exact ih _

theorem moveSubtree_eq (source target : String) :
    moveSubtree source target = changing fun s => ((), ·) <$> s.moveSubtree source target := by
  funext s
  rw [moveSubtree, get_bind, changing, Store.moveSubtree]
  by_cases htarget : s.objects.contains target
  · rw [if_pos htarget, if_pos htarget]
    rfl
  · rw [if_neg htarget, if_neg htarget]
    exact forM_moveOne_eq source target _ s

theorem create_eq (path : String) (kind : Kind) (payload : Object) :
    create path kind payload = changing (·.createObject path kind payload) := by
  funext s
  rw [create, get_bind, changing, Store.createObject]
  by_cases hpath : s.objects.contains path
  · rw [if_pos hpath, if_pos hpath]
    rfl
  · rw [if_neg hpath, if_neg hpath]
    cases s.parentExists path <;> rfl

theorem update_eq (path : String) (patch : Object) :
    update path patch = changing (·.updateObject path patch) := by
  funext s
  rw [update, get_bind, changing, Store.updateObject]
  cases s.objects.get? path <;> rfl

theorem delete_eq (path : String) : delete path = changing (·.deleteObject path) := by
  funext s
  rw [delete, get_bind, changing, Store.deleteObject]
  by_cases hnone : (s.subtree path).isEmpty
  · rw [if_pos hnone, if_pos hnone]
    rfl
  · rw [if_neg hnone, if_neg hnone]
    simp only [bind, EStateM.bind, forM_remove_eq]
    rfl

/-- The moved object is there to be put into its slot. -/
theorem contains_target {s moved : Store} {source target : String} (hsource : s.objects.contains source)
    (hmove : s.moveSubtree source target = .ok moved) : moved.objects.contains target := by
  obtain ⟨hfree, hobjects⟩ := Move.moveSubtree_eq_ok hmove
  have hne : target ≠ source := fun heq => hfree (heq ▸ hsource)
  rw [hobjects, contains_movedObjects hne]
  refine .inr ⟨source, hsource, Path.isUnder_refl source, (movedPath_source source target).symm, ?_⟩
  exact fun hcarried => hfree hcarried.1

theorem link_eq (source dest : String) (slot : Option String) :
    link source dest slot = changing fun s => ((), ·) <$> s.linkObject source dest slot := by
  funext s
  rw [link, get_bind, changing, Store.linkObject]
  by_cases hstray : !Path.isUnder source Path.stray || !s.objects.contains source
  · rw [if_pos hstray, if_pos hstray]
    rfl
  rw [if_neg hstray, if_neg hstray]
  by_cases hdest : !s.objects.contains dest
  · rw [if_pos hdest, if_pos hdest]
    rfl
  rw [if_neg hdest, if_neg hdest]
  simp only [Bool.not_eq_true', Bool.or_eq_true, not_or, Bool.not_eq_false] at hstray
  simp only [bind, EStateM.bind, moveSubtree_eq, changing]
  generalize Path.join dest (Path.baseName source) = target
  cases hmove : s.moveSubtree source target with
  | error e => rfl
  | ok moved =>
    cases slot with
    | none => rfl
    | some slot =>
      -- Only here could a step fail after another has changed the store.
      obtain ⟨object, hobject⟩ := Dict.contains_iff.1 (contains_target hstray.2 hmove)
      have hupdate : update target (slotPatch slot) moved = .ok (applyPatch object (slotPatch slot))
          ⟨moved.objects.insert target (applyPatch object (slotPatch slot))⟩ := by
        rw [update, get_bind, hobject]
        rfl
      simp only [Functor.map, Except.map, Except.bind, Store.updateObject, EStateM.bind, hobject,
        hupdate]
      rfl

theorem unlink_eq (source : String) (dest : Option String) :
    unlink source dest = changing fun s => ((), ·) <$> s.unlinkObject source dest := by
  funext s
  rw [unlink, get_bind, changing, Store.unlinkObject]
  by_cases hphysical : !Path.isUnder source Path.physical || Path.isUnder source Path.stray
  · rw [if_pos hphysical, if_pos hphysical]
    rfl
  rw [if_neg hphysical, if_neg hphysical]
  by_cases hsource : !s.objects.contains source
  · rw [if_pos hsource, if_pos hsource]
    rfl
  rw [if_neg hsource, if_neg hsource, moveSubtree_eq]
  rfl

theorem addTemplate_eq (template : Object) :
    addTemplate template = changing fun s => ((), ·) <$> s.createTemplate template := by
  funext s
  rw [addTemplate, changing, Store.createTemplate]
  cases (template.get? "slug").bind Json.text? with
  | none => rfl
  | some slug =>
    cases TemplateFamily.of? template with
    | none => rfl
    | some family =>
      simp only [get_bind]
      cases s.objects.contains (Path.join (templateNamespace family) slug) <;> rfl

end InPlace

/-- Deleting takes out the subtree and nothing else. -/
theorem deleteObject_get? {s s' : Store} {path : String} {deleted : List String}
    (h : s.deleteObject path = .ok (deleted, s')) : deleted = s.subtree path ∧
      ∀ key, s'.objects.get? key = if Path.isUnder key path then none else s.objects.get? key := by
  rw [deleteObject] at h
  split at h
  · cases h
  · cases h
    refine ⟨rfl, fun key => ?_⟩
    rw [Dict.get?_foldl_erase]
    by_cases hunder : Path.isUnder key path
    · rw [if_pos hunder]
      by_cases hkey : s.objects.contains key
      · rw [if_pos (mem_subtree.2 ⟨hkey, hunder⟩)]
      · rw [Dict.contains, Option.not_isSome_iff_eq_none] at hkey
        rw [hkey, ite_self]
    · rw [if_neg hunder, if_neg fun hmem => hunder (mem_subtree.1 hmem).2]

end Store

namespace Operation

def perform : Operation → Store.Step Unit
  | create path kind payload => do let _ ← Hierarchy.createObject path kind payload
  | update path patch => do let _ ← Hierarchy.updateObject path patch
  | delete path => do let _ ← Hierarchy.deleteObject path
  | move (.link source dest slot) => Hierarchy.linkObject source dest slot
  | move (.unlink source dest) => Hierarchy.unlinkObject source dest
  | template object => Hierarchy.createTemplate object

/-- Makes an operation in place, step by step. -/
def performInPlace : Operation → Store.Step Unit
  | create path kind payload => do let _ ← Store.InPlace.create path kind payload
  | update path patch => do let _ ← Store.InPlace.update path patch
  | delete path => do let _ ← Store.InPlace.delete path
  | move (.link source dest slot) => Store.InPlace.link source dest slot
  | move (.unlink source dest) => Store.InPlace.unlink source dest
  | template object => Store.InPlace.addTemplate object

/-- The footprint of an operation: the paths where it may change something. -/
def Touches : Operation → String → Prop
  | create path _ _, key => key = path
  | update path _, key => key = path
  | delete path, key => Path.isUnder key path
  | move m, key => Path.isUnder key m.source ∨ Path.isUnder key m.target
  | template object, key => Store.templatePath? object = some key

theorem performInPlace_eq (op : Operation) : op.performInPlace = op.perform := by
  cases op with
  | create path kind payload =>
    rw [performInPlace, Store.InPlace.create_eq]
    rfl
  | update path patch =>
    rw [performInPlace, Store.InPlace.update_eq]
    rfl
  | delete path =>
    rw [performInPlace, Store.InPlace.delete_eq]
    rfl
  | move m =>
    cases m with
    | link source dest slot => exact Store.InPlace.link_eq source dest slot
    | unlink source dest => exact Store.InPlace.unlink_eq source dest
  | template object => exact Store.InPlace.addTemplate_eq object

/-! ### Footprints -/

/-- The new store of a successful operation, or the old one. -/
theorem perform_eq (op : Operation) (s : Store) : op.perform s =
    match op.run s with
    | .ok s' => .ok () s'
    | .error e => .error e s := by
  cases op with
  | create path kind payload =>
    simp only [perform, run, bind, EStateM.bind, Hierarchy.createObject, Store.changing]
    cases s.createObject path kind payload <;> rfl
  | update path patch =>
    simp only [perform, run, bind, EStateM.bind, Hierarchy.updateObject, Store.changing]
    cases s.updateObject path patch <;> rfl
  | delete path =>
    simp only [perform, run, bind, EStateM.bind, Hierarchy.deleteObject, Store.changing]
    cases s.deleteObject path <;> rfl
  | move m =>
    cases m with
    | link source dest slot =>
      simp only [perform, run, Move.run, Hierarchy.linkObject, Store.changing]
      cases s.linkObject source dest slot <;> rfl
    | unlink source dest =>
      simp only [perform, run, Move.run, Hierarchy.unlinkObject, Store.changing]
      cases s.unlinkObject source dest <;> rfl
  | template object =>
    simp only [perform, run, Hierarchy.createTemplate, Store.changing]
    cases s.createTemplate object <;> rfl

theorem exists_of_map_snd {α : Type} {result : Except HierarchyError (α × Store)} {s : Store}
    (h : (·.2) <$> result = .ok s) : ∃ a, result = .ok (a, s) := by
  cases result with
  | error e => cases h
  | ok pair =>
    cases h
    exact ⟨pair.1, rfl⟩

/-- Outside of what is moved and of where it is moved every path keeps its object. -/
theorem get?_movedObjects_of_not_isUnder {s : Store} {source target key : String}
    (hsource : ¬Path.isUnder key source) (htarget : ¬Path.isUnder key target) :
    (s.movedObjects source target).get? key = s.objects.get? key := by
  refine Store.movedObjects_induction (p := fun _ d => d.get? key = s.objects.get? key) rfl ?_
  intro done todo old d hall hkept
  have hold := (Store.atTurn hall).isUnder
  have hne : key ≠ old := by
    rintro rfl
    exact hsource hold
  have hnew : key ≠ Store.movedPath source target old := by
    rintro rfl
    exact htarget (Store.isUnder_movedPath hold)
  cases hobject : d.get? old with
  | none =>
    rw [Store.moveOne, hobject]
    exact hkept
  | some object => rw [Store.get?_moveOne hobject, if_neg hnew, if_neg hne, hkept]

theorem get?_run_of_not_touches {op : Operation} {s s' : Store} {key : String}
    (hrun : op.run s = .ok s') (hkey : ¬op.Touches key) : s'.objects.get? key = s.objects.get? key := by
  cases op with
  | create path kind payload =>
    obtain ⟨object, hcreate⟩ := exists_of_map_snd hrun
    obtain ⟨-, rfl⟩ := Store.createObject_eq_ok hcreate
    exact (Dict.get?_insert _ _ _ _).trans (if_neg hkey)
  | update path patch =>
    obtain ⟨object, hupdate⟩ := exists_of_map_snd hrun
    obtain ⟨-, rfl⟩ := Store.updateObject_eq_ok hupdate
    exact (Dict.get?_insert _ _ _ _).trans (if_neg hkey)
  | delete path =>
    obtain ⟨deleted, hdelete⟩ := exists_of_map_snd hrun
    exact ((Store.deleteObject_get? hdelete).2 key).trans (if_neg hkey)
  | move m =>
    have htarget : key ≠ m.target := by
      rintro rfl
      exact hkey (.inr (Path.isUnder_refl _))
    rw [(Move.makes hrun).objects_eq, Move.get?_result, if_neg htarget]
    exact get?_movedObjects_of_not_isUnder (fun h => hkey (.inl h)) fun h => hkey (.inr h)
  | template object =>
    obtain ⟨path, hpath, rfl⟩ := Store.createTemplate_eq_ok hrun
    have hne : key ≠ path := by
      rintro rfl
      exact hkey hpath
    rw [Dict.get?_insert, if_neg hne]

end Operation

namespace Store

/-- The state in which a step ends, whether it succeeds or not. -/
def stateOf {ε σ α : Type} : EStateM.Result ε σ α → σ
  | .ok _ s => s
  | .error _ s => s

/-- Every operation is atomic and stays in its footprint. Looking changes nothing; the other operations, made in place, come to what the hierarchy does, leave the store as it was when they fail, and change nothing outside of their footprint when they succeed; and a deletion takes out exactly what lies at or below its path and gives these paths in order. -/
theorem atomic_within_footprint (s : Store) :
    (∀ path filter, stateOf (Hierarchy.getObject path s) = s ∧
      stateOf (Hierarchy.getChildren path filter s) = s) ∧
    (∀ op : Operation, op.performInPlace s = op.perform s ∧
      match op.performInPlace s with
      | .ok _ s' => ∀ key, ¬op.Touches key → s'.objects.get? key = s.objects.get? key
      | .error _ s' => s' = s) ∧
    ∀ path deleted s', InPlace.delete path s = .ok deleted s' →
      Hierarchy.deleteObject path s = .ok deleted s' ∧ deleted.Pairwise (· < ·) ∧
      (∀ key, key ∈ deleted ↔ s.objects.contains key ∧ Path.isUnder key path) ∧
      ∀ key, s'.objects.get? key = if Path.isUnder key path then none else s.objects.get? key := by
  refine ⟨fun path filter => ⟨?_, ?_⟩, fun op => ⟨?_, ?_⟩, fun path deleted s' hdelete => ?_⟩
  · simp only [Hierarchy.getObject, looking]
    cases s.getObject path <;> rfl
  · simp only [Hierarchy.getChildren, looking]
    cases s.getChildren path filter <;> rfl
  · rw [Operation.performInPlace_eq]
  · rw [Operation.performInPlace_eq, Operation.perform_eq]
    cases hrun : op.run s with
    | error e => rfl
    | ok s' => exact fun key hkey => Operation.get?_run_of_not_touches hrun hkey
  · rw [InPlace.delete_eq] at hdelete
    refine ⟨hdelete, ?_⟩
    simp only [changing] at hdelete
    cases hrun : s.deleteObject path with
    | error e =>
      rw [hrun] at hdelete
      cases hdelete
    | ok result =>
      obtain ⟨paths, store⟩ := result
      rw [hrun] at hdelete
      cases hdelete
      obtain ⟨rfl, hget⟩ := deleteObject_get? hrun
      exact ⟨subtree_sorted s path, fun key => mem_subtree, hget⟩

end Store

end TwinShell
