import TwinShell.Proofs.Hierarchy.Footprint

/-!
# Runs of operations

What operations come to when they are made one after the other, whether each of them succeeds or not. Creating, updating and deleting look after the tree: a new object asks for its parent, an update stays where it is, and a deletion takes everything below with it, so that a path that is left over cannot have lost its parent. This holds for any texts as paths. A parent is what stands before the last slash, so a path lies below its parent, and if the parent lies at or below the deleted path, then so does the path itself.

Linking is the way back from unlinking. An object that was moved among the stray objects finds nothing below its new path, because nothing can hang on a path that is free, and its old path is free again; so moving it back meets no other object, and each object comes to lie where it was.
-/

namespace TwinShell

/-! ### Creating, updating and deleting -/

/-- Whether an operation creates, updates or deletes an object. -/
def Operation.isOrdinary : Operation → Bool
  | create .. | update .. | delete .. => true
  | move .. | template .. => false

namespace Store

variable {s s' : Store}

/-- The store after an operation made in place, whether it succeeds or not. -/
def after (s : Store) (op : Operation) : Store := stateOf (op.performInPlace s)

/-- The store after several operations, made one after the other. -/
def afterAll (s : Store) (ops : List Operation) : Store := ops.foldl after s

theorem after_eq (s : Store) (op : Operation) : s.after op =
    match op.run s with
    | .ok s' => s'
    | .error _ => s := by
  rw [after, Operation.performInPlace_eq, Operation.perform_eq]
  cases op.run s <;> rfl

theorem closed_run (hclosed : s.Closed) {op : Operation} (hop : op.isOrdinary)
    (hrun : op.run s = .ok s') : s'.Closed := by
  cases op with
  | create path kind payload =>
    obtain ⟨object, hcreate⟩ := Operation.exists_of_map_snd hrun
    obtain ⟨hparent, rfl⟩ := createObject_eq_ok hcreate
    exact (closed_insert hclosed).2 hparent
  | update path patch =>
    obtain ⟨object, hupdate⟩ := Operation.exists_of_map_snd hrun
    obtain ⟨hstored, rfl⟩ := updateObject_eq_ok hupdate
    exact (closed_insert hclosed).2 (hclosed path hstored)
  | delete path =>
    obtain ⟨deleted, hdelete⟩ := Operation.exists_of_map_snd hrun
    exact closed_delete hclosed hdelete
  | move m => cases hop
  | template object => cases hop

theorem closed_after (hclosed : s.Closed) {op : Operation} (hop : op.isOrdinary) :
    (s.after op).Closed := by
  rw [after_eq]
  cases hrun : op.run s with
  | error e => exact hclosed
  | ok s' => exact closed_run hclosed hop hrun

/-- Creating, updating and deleting, in any order and with any arguments, keep the tree connected. -/
theorem closed_afterAll (hclosed : s.Closed) {ops : List Operation}
    (hops : ∀ op ∈ ops, op.isOrdinary) : (s.afterAll ops).Closed := by
  induction ops generalizing s with
  | nil => exact hclosed
  | cons op ops ih =>
    obtain ⟨hop, hrest⟩ := List.forall_mem_cons.1 hops
    exact ih (closed_after hclosed hop) hrest

/-- Paths without a slash and with two in a row, a creation that finds no parent, and deletions that take several objects at once. -/
theorem closed_afterAll_oddPaths :
    let s := (Store.empty.insert "/Physical/a" .empty).insert "/Physical/ab" .empty
    let ops : List Operation := [.create "x" .site .empty, .create "x/y" .room .empty,
      .create "/Physical/a//b" .room .empty, .create "/Physical/a/" .room .empty,
      .create "/Physical/a//b" .room .empty, .update "/Physical/b" .empty, .delete "/Physical/a",
      .delete "x"]
    s.Closed ∧ (∀ op ∈ ops, op.isOrdinary) ∧ (s.afterAll ops).objects.keys = ["/Physical/ab"] ∧
      (s.afterAll ops).Closed :=
  ⟨by decide, by decide, by decide +kernel, closed_afterAll (by decide) (by decide)⟩

end Store

/-! ### The way back -/

theorem Store.movedPath_movedPath {source target path : String} (h : Path.isUnder path source) :
    movedPath target source (movedPath source target path) = path := by
  obtain ⟨rest, hrest, -⟩ := exists_rest h
  rw [← String.toList_inj, toList_movedPath (toList_movedPath hrest), hrest]

namespace Move

variable {m back : Move} {s s' s'' : Store}

theorem slotted_of_slot_eq_none (h : m.slot = none) (object : Object) : m.slotted object = object := by
  rw [slotted, h, Option.elim_none]

/-- A move without a slot that only renames, look-up by look-up. -/
theorem OnlyRenames.get?_eq_some_iff (h : m.OnlyRenames s s') (hslot : m.slot = none) {path : String}
    {object : Object} : s'.objects.get? path = some object ↔
      (¬Path.isUnder path m.source ∧ s.objects.get? path = some object) ∨
      ∃ key, Path.isUnder key m.source ∧ s.objects.get? key = some object ∧ path = m.movedPath key := by
  rw [h.get?_iff]
  refine or_congr_right ⟨?_, ?_⟩
  · rintro ⟨key, old, hunder, hold, hpath, hobject⟩
    rw [slotted_of_slot_eq_none hslot, ite_self] at hobject
    exact ⟨key, hunder, hobject ▸ hold, hpath⟩
  · rintro ⟨key, hunder, hold, hpath⟩
    refine ⟨key, object, hunder, hold, hpath, ?_⟩
    rw [slotted_of_slot_eq_none hslot, ite_self]

theorem OnlyRenames.contains_iff (h : m.OnlyRenames s s') (hslot : m.slot = none) {path : String} :
    s'.objects.contains path ↔ (¬Path.isUnder path m.source ∧ s.objects.contains path) ∨
      ∃ key, Path.isUnder key m.source ∧ s.objects.contains key ∧ path = m.movedPath key := by
  simp only [Dict.contains_iff, h.get?_eq_some_iff hslot]
  constructor
  · rintro ⟨object, ⟨hout, hold⟩ | ⟨key, hunder, hold, hpath⟩⟩
    · exact .inl ⟨hout, object, hold⟩
    · exact .inr ⟨key, hunder, ⟨object, hold⟩, hpath⟩
  · rintro (⟨hout, object, hold⟩ | ⟨key, hunder, ⟨object, hold⟩, hpath⟩)
    · exact ⟨object, .inl ⟨hout, hold⟩⟩
    · exact ⟨object, .inr ⟨key, hunder, hold, hpath⟩⟩

/-- A move from the target of another one to its source. -/
structure IsBackOf (back m : Move) : Prop where
  source : back.source = m.target
  target : back.target = m.source
  slot : m.slot = none
  slot_back : back.slot = none

/-- What comes to lie below the target is moved back to where it was; what was never moved stays there, since nothing was at or below the target. -/
theorem IsBackOf.objects_eq (hback : back.IsBackOf m) (hfirst : m.OnlyRenames s s')
    (hsecond : back.OnlyRenames s' s'') (hfree : ∀ key, s.objects.contains key → ¬Path.isUnder key m.target) :
    s''.objects = s.objects := by
  have hmoved {key : String} (hunder : Path.isUnder key m.source) :
      back.movedPath (m.movedPath key) = key := by
    rw [movedPath, hback.source, hback.target]
    exact Store.movedPath_movedPath hunder
  have hout {path : String} {object : Object} (hget : s.objects.get? path = some object) :
      ¬Path.isUnder path m.target := hfree path (Dict.contains_iff.2 ⟨object, hget⟩)
  refine Dict.ext_get? fun path object => ?_
  rw [hsecond.get?_eq_some_iff hback.slot_back, hback.source]
  constructor
  · rintro (⟨hpath, hget⟩ | ⟨key, hkey, hget, rfl⟩)
    · rcases (hfirst.get?_eq_some_iff hback.slot).1 hget with ⟨-, hold⟩ | ⟨key, hunder, -, rfl⟩
      · exact hold
      · exact absurd (Store.isUnder_movedPath hunder) hpath
    · rcases (hfirst.get?_eq_some_iff hback.slot).1 hget with ⟨-, hold⟩ | ⟨key, hunder, hold, rfl⟩
      · exact absurd hkey (hout hold)
      · rw [hmoved hunder]
        exact hold
  · intro hget
    by_cases hunder : Path.isUnder path m.source
    · have hnew := (hfirst.get?_eq_some_iff hback.slot).2 (.inr ⟨path, hunder, hget, rfl⟩)
      exact .inr ⟨m.movedPath path, Store.isUnder_movedPath hunder, hnew, (hmoved hunder).symm⟩
    · exact .inl ⟨hout hget, (hfirst.get?_eq_some_iff hback.slot).2 (.inl ⟨hunder, hget⟩)⟩

/-- Nothing is in the way back, if no path lies below the source and the target at once. -/
theorem IsBackOf.keepsAll (hback : back.IsBackOf m) (hfirst : m.OnlyRenames s s')
    (hapart : ∀ path, Path.isUnder path m.source → ¬Path.isUnder path m.target) : back.KeepsAll s' := by
  intro key hkey hunder hover
  have hsource : Path.isUnder (back.movedPath key) m.source := by
    rw [movedPath, hback.target]
    exact Store.isUnder_movedPath hunder
  rcases (hfirst.contains_iff hback.slot).1 hover.1 with ⟨hout, -⟩ | ⟨other, hother, -, heq⟩
  · exact hout hsource
  · have htarget : Path.isUnder (m.movedPath other) m.target := Store.isUnder_movedPath hother
    rw [← heq] at htarget
    exact hapart _ hsource htarget

end Move

namespace Path

/-- What lies below a place in the physical hierarchy outside of the stray objects is not among them. -/
theorem not_isUnder_stray {path key : String} (hphysical : isUnder path physical) (hne : path ≠ physical)
    (hstray : ¬isUnder path stray) (hkey : isUnder key path) : ¬isUnder key stray := by
  intro hunder
  rcases isUnder_or_isUnder hkey hunder with hbelow | habove
  · exact hstray hbelow
  · have hempty : path ≠ "" := by
      rintro rfl
      exact absurd hphysical (by decide)
    have hroot : stray ≠ path := by
      rintro rfl
      exact hstray (isUnder_refl stray)
    have hparent := isUnder_parent hempty habove hroot
    rw [show parent stray = physical by decide] at hparent
    have hlong := length_lt_of_isUnder hphysical hne
    have hshort := length_le_of_isUnder hparent
    omega

theorem join_stray {name : String} (hname : IsSegment name) : join stray name = stray ++ "/" ++ name := by
  have hsegs : ∀ s ∈ ["Physical", "Stray", name], IsSegment s := by
    simp only [List.forall_mem_cons]
    exact ⟨⟨by decide, by decide, by decide, by decide⟩, ⟨by decide, by decide, by decide, by decide⟩, hname, nofun⟩
  have hpath : stray ++ "/" ++ name = ofSegments ["Physical", "Stray", name] := by
    simp [← String.toList_inj, toList_ofSegments, stray, List.intercalate]
  rw [join, clean, hpath, segments_of_isSegment hsegs]

theorem not_isNamespace_join_stray {name : String} (hname : IsSegment name) :
    ¬isNamespace (join stray name) := by
  have hall : ∀ path ∈ namespaces, parent path ≠ stray := by decide
  have hparent : parent (join stray name) = stray :=
    parent_join (by decide) hname.no_slash hname.ne_empty
  exact fun hspace => hall _ (isNamespace_iff.1 hspace) hparent

theorem isUnder_join_stray {name : String} (hname : IsSegment name) : isUnder (join stray name) stray := by
  have hparent : parent (join stray name) = stray :=
    parent_join (by decide) hname.no_slash hname.ne_empty
  have hself := isUnder_self_parent (join stray name)
  rw [hparent] at hself
  exact hself.resolve_left (by decide)

theorem Canonical.join_parent {path : String} (h : Canonical path) (hroot : path ≠ "/") :
    join (Path.parent path) (baseName path) = path := by
  obtain ⟨segs, s, rfl, hsegs, hs⟩ := h.eq_child hroot
  rw [parent_ofSegments segs hs.no_slash, baseName_ofSegments segs hs.no_slash fun t ht => (hsegs t ht).no_slash,
    join_child hsegs hs.no_slash hs.ne_empty]

end Path

namespace Store

variable {s s' : Store}

theorem linkObject_eq_ok {source dest : String} (hstray : Path.isUnder source Path.stray)
    (hsource : s.objects.contains source) (hdest : s.objects.contains dest)
    (hfree : ¬s.objects.contains (Path.join dest (Path.baseName source))) :
    s.linkObject source dest none =
      .ok ⟨s.movedObjects source (Path.join dest (Path.baseName source))⟩ := by
  have hmove : s.moveSubtree source (Path.join dest (Path.baseName source)) =
      .ok ⟨s.movedObjects source (Path.join dest (Path.baseName source))⟩ := by
    rw [moveSubtree, if_neg hfree]
    rfl
  rw [linkObject, if_neg (by simp [hstray, hsource]), if_neg (by simp [hdest])]
  simp only [hmove]
  rfl

/-- Unlinking to the stray objects only renames, and there was nothing at or below the new path. -/
theorem onlyRenames_unlink (hclosed : s.Closed) {path : String}
    (hname : Path.IsSegment (Path.baseName path)) (hunlink : s.unlinkObject path none = .ok s') :
    Move.OnlyRenames (.unlink path none) s s' ∧
      ∀ key, s.objects.contains key → ¬Path.isUnder key (Path.join Path.stray (Path.baseName path)) := by
  have hmakes : Move.Makes (.unlink path none) s s' := Move.makes hunlink
  have hspace := Path.not_isNamespace_join_stray hname
  refine ⟨Move.onlyRenames_of_keepsAll hmakes ?_, fun key hkey hunder => hspace ?_⟩
  · exact Move.keepsAll_of_not_isNamespace hclosed hmakes hspace
  · exact Move.isNamespace_target (m := .unlink path none) hclosed hmakes hunder (.inr hkey)

/-- An object that was moved out of the physical hierarchy, among the stray objects, can be linked to its old parent, and then the store is the old one. -/
theorem linkObject_of_unlinkObject (hclosed : s.Closed) {path : String} (hpath : Path.Canonical path)
    (hne : path ≠ Path.physical) (hstray : ¬Path.isUnder path Path.stray)
    (hparent : s.objects.contains (Path.parent path)) (hunlink : s.unlinkObject path none = .ok s') :
    s'.linkObject (Path.stray ++ "/" ++ Path.baseName path) (Path.parent path) none = .ok s := by
  let m : Move := .unlink path none
  have hmakes : m.Makes s s' := Move.makes hunlink
  have hroot : path ≠ "/" := by
    rintro rfl
    exact absurd hmakes.isUnder_physical (by decide)
  have hname : Path.IsSegment (Path.baseName path) := hpath.isSegment_baseName hroot
  obtain ⟨hfirst, hfree⟩ := onlyRenames_unlink hclosed hname hunlink
  have hapart (key : String) (hkey : Path.isUnder key path) : ¬Path.isUnder key m.target := by
    intro hunder
    have hamong := Path.isUnder_trans hunder (Path.isUnder_join_stray hname)
    exact Path.not_isUnder_stray hmakes.isUnder_physical hne hstray hkey hamong
  have hjoin : Path.join (Path.parent path) (Path.baseName m.target) = path := by
    have hbase : Path.baseName m.target = Path.baseName path :=
      Path.baseName_join (show Path.Canonical Path.stray by decide) hname.no_slash hname.ne_empty
    rw [hbase, hpath.join_parent hroot]
  -- What the link asks for: the moved object and its old parent are there, and its old path is free.
  have hsource : s'.objects.contains m.target :=
    (hfirst.contains_iff rfl).2 (.inr ⟨path, Path.isUnder_refl path, hmakes.contains_source,
      (movedPath_source _ _).symm⟩)
  have hdest : s'.objects.contains (Path.parent path) :=
    (hfirst.contains_iff rfl).2 (.inl ⟨hpath.not_isUnder_parent hroot, hparent⟩)
  have hvacant : ¬s'.objects.contains path := by
    intro hstored
    rcases (hfirst.contains_iff rfl).1 hstored with ⟨hout, -⟩ | ⟨key, hkey, -, heq⟩
    · exact hout (Path.isUnder_refl path)
    · exact hapart path (Path.isUnder_refl path) (heq ▸ isUnder_movedPath hkey)
  have hlink := linkObject_eq_ok (Path.isUnder_join_stray hname) hsource hdest (hjoin.symm ▸ hvacant)
  let back : Move := .link m.target (Path.parent path) none
  have hback : back.IsBackOf m := ⟨rfl, hjoin, rfl, rfl⟩
  have hsecond := Move.onlyRenames_of_keepsAll (Move.makes (m := back) hlink) (hback.keepsAll hfirst hapart)
  rw [← Path.join_stray hname, hlink]
  exact congrArg (Except.ok ∘ Store.mk) (hback.objects_eq hfirst hsecond hfree)

/-- A building with a room goes among the stray objects, where one with a longer name is already, and comes back. -/
theorem linkObject_of_unlinkObject_building : ∃ s s' : Store, s.Closed ∧
    (∀ key ∈ s.objects.keys, Path.Canonical key) ∧ s.objects.keys =
      ["/Physical/S", "/Physical/S/B", "/Physical/S/B/R", "/Physical/Stray/BB"] ∧
    s.unlinkObject "/Physical/S/B" none = .ok s' ∧ s'.objects.contains "/Physical/Stray/B/R" ∧
    s'.linkObject "/Physical/Stray/B" "/Physical/S" none = .ok s := by
  obtain ⟨s, s', hclosed, hkeys, hunlink, hmoved⟩ : ∃ s s' : Store, s.Closed ∧ s.objects.keys =
      ["/Physical/S", "/Physical/S/B", "/Physical/S/B/R", "/Physical/Stray/BB"] ∧
      s.unlinkObject "/Physical/S/B" none = .ok s' ∧ s'.objects.contains "/Physical/Stray/B/R" :=
    ⟨(((Store.empty.insert "/Physical/S" .empty).insert "/Physical/S/B" .empty).insert
      "/Physical/S/B/R" .empty).insert "/Physical/Stray/BB" .empty, _, by decide, by decide, rfl, by decide⟩
  have hparent : Path.parent "/Physical/S/B" = "/Physical/S" := by decide
  have hname : Path.stray ++ "/" ++ Path.baseName "/Physical/S/B" = "/Physical/Stray/B" := by decide
  have hstored : s.objects.contains (Path.parent "/Physical/S/B") := by
    rw [← Dict.mem_keys, hkeys, hparent]
    decide
  have hlink := linkObject_of_unlinkObject hclosed (by decide) (by decide) (by decide) hstored hunlink
  rw [hname, hparent] at hlink
  exact ⟨s, s', hclosed, by rw [hkeys]; decide, hkeys, hunlink, hmoved, hlink⟩

end Store

end TwinShell
