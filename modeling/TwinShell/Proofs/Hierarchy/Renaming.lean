import TwinShell.Proofs.Hierarchy.Moves

/-!
# Moves lose nothing

Linking and unlinking move an object with everything below it. Whether the target is free is only asked of the target itself. In a store where every object hangs on a namespace or on another object, nothing can lie below a free target, unless the target is a namespace; then the objects below it are overwritten without notice. A move is a mere renaming exactly when this does not happen.
-/

namespace TwinShell

namespace Store

variable {s : Store}

/-- Every object hangs on a namespace or on another object. -/
def Closed (s : Store) : Prop := ∀ key, s.objects.contains key → s.parentExists key

/-- A path that is a namespace or names an object. -/
def Exists (s : Store) (path : String) : Prop := Path.isNamespace path ∨ s.objects.contains path

theorem parentExists_iff {path : String} : s.parentExists path ↔ s.Exists (Path.parent path) := by
  rw [parentExists, Bool.or_eq_true, Exists]

theorem closed_iff_keys : s.Closed ↔ ∀ key ∈ s.objects.keys, s.parentExists key := by
  simp only [Closed, Dict.mem_keys]

instance (s : Store) : Decidable s.Closed := decidable_of_iff _ closed_iff_keys.symm

namespace Closed

theorem exists_parent (h : s.Closed) {path : String} (hpath : s.Exists path) :
    s.Exists (Path.parent path) := by
  rcases hpath with hpath | hpath
  · exact .inl (Path.isNamespace_parent hpath)
  · exact parentExists_iff.1 (h path hpath)

/-- Everything above a path that exists exists too. -/
theorem exists_above (h : s.Closed) {path root : String} (hroot : root ≠ "")
    (hunder : Path.isUnder path root) (hpath : s.Exists path) : s.Exists root :=
  Path.of_isUnder (fun _ => h.exists_parent) hroot hunder hpath

end Closed

end Store

/-- A move of an object with everything below it. -/
inductive Move where
  | link (source dest : String) (slot : Option String)
  | unlink (source : String) (dest : Option String)

namespace Move

/-- The paths that a move is called with. -/
def paths : Move → List String
  | link source dest _ => [source, dest]
  | unlink source dest => source :: dest.toList

def source : Move → String
  | link source _ _ => source
  | unlink source _ => source

/-- Below what it is moved. -/
def dest : Move → String
  | link _ dest _ => dest
  | unlink _ dest => dest.getD Path.stray

/-- The slot that the moved object gets. -/
def slot : Move → Option String
  | link _ _ slot => slot
  | unlink _ _ => none

/-- Where the object comes to lie. -/
def target (m : Move) : String := Path.join m.dest (Path.baseName m.source)

/-- Where an object below the source comes to lie. -/
def movedPath (m : Move) (key : String) : String := Store.movedPath m.source m.target key

/-- Makes the move. -/
def run (s : Store) : Move → Except HierarchyError Store
  | link source dest slot => s.linkObject source dest slot
  | unlink source dest => s.unlinkObject source dest

/-- The moved object itself, with its slot. -/
def slotted (m : Move) (object : Object) : Object :=
  m.slot.elim object fun slot => Store.applyPatch object (Store.slotPatch slot)

def result (m : Move) (s : Store) : Dict Object :=
  let moved := s.movedObjects m.source m.target
  match m.slot, moved.get? m.target with
  | some _, some object => moved.insert m.target (m.slotted object)
  | _, _ => moved

/-- What a successful move has checked, and what it gives. -/
structure Makes (m : Move) (s s' : Store) : Prop where
  contains_source : s.objects.contains m.source
  isUnder_physical : Path.isUnder m.source Path.physical
  target_free : ¬s.objects.contains m.target
  objects_eq : s'.objects = m.result s

theorem moveSubtree_eq_ok {s s' : Store} {source target : String}
    (h : s.moveSubtree source target = .ok s') :
    ¬s.objects.contains target ∧ s'.objects = s.movedObjects source target := by
  rw [Store.moveSubtree] at h
  split at h
  · cases h
  · rename_i hfree
    cases h
    exact ⟨hfree, rfl⟩

theorem makes {m : Move} {s s' : Store} (h : m.run s = .ok s') : m.Makes s s' := by
  cases m with
  | link source dest slot =>
    rw [run, Store.linkObject] at h
    split at h
    · cases h
    · rename_i hstray
      split at h
      · cases h
      · simp only [Bool.not_eq_true', Bool.or_eq_true, not_or, Bool.not_eq_false] at hstray
        have hphysical := Path.isUnder_trans hstray.1
          (show Path.isUnder Path.stray Path.physical by decide)
        cases hmove : s.moveSubtree source (Path.join dest (Path.baseName source)) with
        | error e => simp only [hmove, bind, Except.bind, reduceCtorEq] at h
        | ok moved =>
          obtain ⟨hfree, hobjects⟩ := moveSubtree_eq_ok hmove
          refine ⟨hstray.2, hphysical, hfree, ?_⟩
          simp only [hmove, bind, Except.bind] at h
          cases slot with
          | none =>
            cases h
            exact hobjects
          | some slot =>
            simp only [Store.updateObject] at h
            cases hget : moved.objects.get? (Path.join dest (Path.baseName source)) with
            | none => simp only [hget, Functor.map, Except.map, reduceCtorEq] at h
            | some object =>
              simp only [hget, Functor.map, Except.map, Except.ok.injEq] at h
              rw [hobjects] at hget h
              simp only [Move.result, Move.source, Move.target, Move.dest, Move.slot, hget, ← h]
              rfl
  | unlink source dest =>
    rw [run, Store.unlinkObject] at h
    split at h
    · cases h
    · rename_i hphysical
      split at h
      · cases h
      · rename_i hsource
        simp only [Bool.not_eq_true', Bool.or_eq_true, not_or, Bool.not_eq_false] at hphysical hsource
        obtain ⟨hfree, hobjects⟩ := moveSubtree_eq_ok h
        exact ⟨hsource, hphysical.1, hfree, hobjects⟩

theorem get?_result (m : Move) (s : Store) (path : String) :
    (m.result s).get? path = if path = m.target
      then ((s.movedObjects m.source m.target).get? path).map m.slotted
      else (s.movedObjects m.source m.target).get? path := by
  have hnone : m.slot = none → ∀ object : Option Object, object.map m.slotted = object := by
    intro hslot object
    cases object with
    | none => rfl
    | some object => simp [slotted, hslot]
  simp only [result]
  split
  · rename_i slot object hslot hget
    rw [Dict.get?_insert]
    split
    · rename_i heq
      rw [heq, hget, Option.map_some]
    · rfl
  · rename_i hother
    split
    · rename_i heq
      subst heq
      cases hslot : m.slot with
      | none => rw [hnone hslot]
      | some slot =>
        cases hget : (s.movedObjects m.source m.target).get? m.target with
        | none => rfl
        | some object => exact absurd hget (hother slot object hslot)
    · rfl

theorem contains_result (m : Move) (s : Store) (path : String) :
    (m.result s).contains path ↔ (s.movedObjects m.source m.target).contains path := by
  rw [Dict.contains, get?_result, Dict.contains]
  split
  · rw [Option.isSome_map]
  · rfl

theorem size_result (m : Move) (s : Store) :
    (m.result s).size = (s.movedObjects m.source m.target).size := by
  simp only [result]
  split
  · rename_i slot object hslot hget
    rw [Dict.size_insert, if_pos (Dict.contains_iff.2 ⟨object, hget⟩)]
  · rfl

namespace Makes

variable {m : Move} {s s' : Store}

theorem target_ne_source (h : m.Makes s s') : m.target ≠ m.source :=
  fun heq => h.target_free (heq ▸ h.contains_source)

theorem source_ne_empty (h : m.Makes s s') : m.source ≠ "" := by
  intro heq
  exact absurd (heq ▸ h.isUnder_physical) (by decide)

theorem target_ne_empty (_ : m.Makes s s') : m.target ≠ "" := Path.join_ne_empty _ _

end Makes

/-- A move that only renames: the new store holds the old objects that are not at or below the source, and every other object under its new path, the moved one itself with its slot. -/
structure OnlyRenames (m : Move) (before after : Store) : Prop where
  get?_iff : ∀ path object, after.objects.get? path = some object ↔
    (¬Path.isUnder path m.source ∧ before.objects.get? path = some object) ∨
    ∃ key old, Path.isUnder key m.source ∧ before.objects.get? key = some old ∧
      path = m.movedPath key ∧ object = if key = m.source then m.slotted old else old
  size_eq : after.objects.size = before.objects.size

/-- No object is overwritten: neither one outside the moved subtree nor one still to be moved. -/
def KeepsAll (m : Move) (s : Store) : Prop :=
  ∀ key, s.objects.contains key → Path.isUnder key m.source →
    ¬Store.Overwrites s m.source m.target key

theorem keepsAll_of_size_eq {m : Move} {s s' : Store} (h : m.Makes s s')
    (hsize : s'.objects.size = s.objects.size) : m.KeepsAll s := by
  have hcount := (Store.keysMoved (s := s) h.target_ne_source).size_eq
  rw [h.objects_eq, size_result] at hsize
  have hnil : ((s.subtree m.source).filter fun key => Store.Overwrites s m.source m.target key) = [] :=
    List.eq_nil_of_length_eq_zero (by omega)
  intro key hkey hunder hover
  exact List.filter_eq_nil_iff.1 hnil key (Store.mem_subtree.2 ⟨hkey, hunder⟩) (decide_eq_true hover)

theorem onlyRenames_of_keepsAll {m : Move} {s s' : Store} (h : m.Makes s s') (hkeeps : m.KeepsAll s) :
    m.OnlyRenames s s' := by
  have hmoved := Store.objectsMoved hkeeps
  have hcount := (Store.keysMoved (s := s) h.target_ne_source).size_eq
  have hnone : ((s.subtree m.source).filter fun key => Store.Overwrites s m.source m.target key) = [] := by
    refine List.filter_eq_nil_iff.2 fun key hkey => ?_
    obtain ⟨hstored, hunder⟩ := Store.mem_subtree.1 hkey
    simpa using hkeeps key hstored hunder
  rw [hnone, List.length_nil, Nat.add_zero] at hcount
  refine ⟨fun path object => ?_, by rw [h.objects_eq, size_result, hcount]⟩
  rw [h.objects_eq, get?_result]
  by_cases hnew : ∃ key ∈ s.subtree m.source, path = m.movedPath key
  · obtain ⟨key, hkey, rfl⟩ := hnew
    obtain ⟨hstored, hunder⟩ := Store.mem_subtree.1 hkey
    have hget : (s.movedObjects m.source m.target).get? (m.movedPath key) = s.objects.get? key :=
      hmoved.get?_moved key hkey
    have htarget : m.movedPath key = m.target ↔ key = m.source := by
      constructor
      · intro heq
        refine Store.movedPath_inj hunder (Path.isUnder_refl _) (heq.trans ?_)
        exact (Store.movedPath_source _ _).symm
      · rintro rfl
        exact Store.movedPath_source _ _
    -- Nothing outside the subtree lies where an object comes to lie.
    have hfree : ¬(¬Path.isUnder (m.movedPath key) m.source ∧
        s.objects.get? (m.movedPath key) = some object) := fun hold =>
      hkeeps key hstored hunder ⟨Dict.contains_iff.2 ⟨object, hold.2⟩, fun hmoved => hold.1 hmoved.1⟩
    obtain ⟨old, hold⟩ := Dict.contains_iff.1 hstored
    have hvalue : (if m.movedPath key = m.target then (some old).map m.slotted else some old) =
        some (if key = m.source then m.slotted old else old) := by
      simp only [htarget, Option.map_some]
      split <;> rfl
    rw [hget, hold, hvalue, Option.some.injEq]
    constructor
    · intro heq
      exact .inr ⟨key, old, hunder, hold, rfl, heq.symm⟩
    · rintro (hold' | ⟨key', old', hunder', hold', hpath, rfl⟩)
      · exact absurd hold' hfree
      · obtain rfl := Store.movedPath_inj hunder hunder' hpath
        obtain rfl := Option.some.inj (hold.symm.trans hold')
        rfl
  · have hnew' : ∀ key ∈ s.subtree m.source, path ≠ m.movedPath key :=
      fun key hkey heq => hnew ⟨key, hkey, heq⟩
    have hsource := Store.mem_subtree.2 ⟨h.contains_source, Path.isUnder_refl m.source⟩
    have htarget : path ≠ m.target := fun heq =>
      hnew' m.source hsource (heq.trans (Store.movedPath_source _ _).symm)
    rw [if_neg htarget, hmoved.get?_other path hnew']
    constructor
    · intro hget
      split at hget
      · cases hget
      · rename_i hout
        refine .inl ⟨fun hunder => hout ?_, hget⟩
        exact Store.mem_subtree.2 ⟨Dict.contains_iff.2 ⟨object, hget⟩, hunder⟩
    · rintro (⟨hunder, hget⟩ | ⟨key, old, hunder, hold, hpath, -⟩)
      · rw [if_neg fun hmem => hunder (Store.mem_subtree.1 hmem).2, hget]
      · exact absurd hpath (hnew' key (Store.mem_subtree.2 ⟨Dict.contains_iff.2 ⟨old, hold⟩, hunder⟩))

/-- Below a free target nothing lies, unless the target is a namespace. -/
theorem keepsAll_of_not_isNamespace {m : Move} {s s' : Store} (hclosed : s.Closed) (h : m.Makes s s')
    (htarget : ¬Path.isNamespace m.target) : m.KeepsAll s := by
  intro key hkey hunder hover
  rcases hclosed.exists_above h.target_ne_empty (Store.isUnder_movedPath hunder) (.inr hover.1) with
    hspace | hstored
  · exact htarget hspace
  · exact h.target_free hstored

/-- A successful move only renames, exactly if its target is no namespace or nothing is overwritten below it. -/
theorem onlyRenames_iff {m : Move} {s s' : Store} (hclosed : s.Closed) (hrun : m.run s = .ok s') :
    m.OnlyRenames s s' ↔ (Path.isNamespace m.target → m.KeepsAll s) := by
  have h := makes hrun
  constructor
  · exact fun honly _ => keepsAll_of_size_eq h honly.size_eq
  · intro hkeeps
    by_cases hspace : Path.isNamespace m.target
    · exact onlyRenames_of_keepsAll h (hkeeps hspace)
    · exact onlyRenames_of_keepsAll h (keepsAll_of_not_isNamespace hclosed h hspace)

/-- A stray device is put into a rack. -/
theorem onlyRenames_link : ∃ s s', Move.run s (.link "/Physical/Stray/d" "/Physical/r" none) = .ok s' ∧
    Move.OnlyRenames (.link "/Physical/Stray/d" "/Physical/r" none) s s' :=
  ⟨(Store.empty.insert "/Physical/Stray/d" .empty).insert "/Physical/r" .empty, _, rfl,
    (onlyRenames_iff (by decide) rfl).2 fun hspace => absurd hspace (by decide)⟩

end Move

/-- An operation on a store. -/
inductive Operation where
  | create (path : String) (kind : Kind) (payload : Object)
  | update (path : String) (patch : Object)
  | delete (path : String)
  | move (m : Move)
  | template (object : Object)

namespace Operation

/-- The paths that an operation is called with. -/
def paths : Operation → List String
  | create path _ _ => [path]
  | update path _ => [path]
  | delete path => [path]
  | move m => m.paths
  | template _ => []

/-- The store after an operation. -/
def run (s : Store) : Operation → Except HierarchyError Store
  | create path kind payload => (·.2) <$> s.createObject path kind payload
  | update path patch => (·.2) <$> s.updateObject path patch
  | delete path => (·.2) <$> s.deleteObject path
  | move m => m.run s
  | template object => s.createTemplate object

/-- The store after several operations, all of them successful. -/
def runAll (s : Store) : List Operation → Except HierarchyError Store
  | [] => .ok s
  | op :: ops => do runAll (← op.run s) ops

end Operation

/-- The stores that operations on paths in canonical form lead to. -/
def Store.Reachable (s : Store) : Prop :=
  ∃ ops, (∀ op ∈ ops, ∀ path ∈ op.paths, Path.Canonical path) ∧ Operation.runAll .empty ops = .ok s

/-- An object called like a namespace is moved over it, onto an object that lies below the namespace already. -/
theorem Move.not_onlyRenames_unlink : ∃ s s',
    s.Reachable ∧ s.Closed ∧ Move.run s (.unlink "/Physical/S/Stray" (some "/Physical")) = .ok s' ∧
      ¬Move.OnlyRenames (.unlink "/Physical/S/Stray" (some "/Physical")) s s' := by
  let site (path : String) : Operation := .create path .site .empty
  have hrun : ∃ s, Operation.runAll .empty [site "/Physical/S", site "/Physical/S/Stray",
      site "/Physical/S/Stray/foo", site "/Physical/Stray/foo"] = .ok s ∧ s.Closed ∧
      ∃ s', Move.run s (.unlink "/Physical/S/Stray" (some "/Physical")) = .ok s' ∧
        s'.objects.size ≠ s.objects.size := ⟨_, rfl, by decide, _, rfl, by decide⟩
  obtain ⟨s, hs, hclosed, s', hs', hsize⟩ := hrun
  exact ⟨s, s', ⟨_, by decide, hs⟩, hclosed, hs', fun honly => hsize honly.size_eq⟩

end TwinShell
