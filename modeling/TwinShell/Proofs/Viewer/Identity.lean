import TwinShell.Hierarchy.Store
import TwinShell.Proofs.Dict
import TwinShell.Proofs.Path.Below
import TwinShell.Session.Eval

/-!
# Which object a message is about

The viewer knows a physical object by the names of its path put together with dots, without the namespace. A stray object leaves out one segment more than the others, and nothing in its id tells that it did. So an object among the stray ones has the id of the object with the same names in the hierarchy, and a message about one of the two is about the other as well. This is the only way in which two physical objects without dots in their names have the same id.
-/

namespace TwinShell

/-- The id of the object that a message creates, changes or deletes. -/
def Message.objectId? (message : Json) : Option String :=
  match message.field? "type", message.field? "data" with
  | some (.str kind), some data =>
    if kind = "delete" then data.text?
    else if kind = "create" ∨ kind = "modify" then (data.field? "id").bind Json.text?
    else none
  | _, _ => none

theorem Message.objectId?_typed (kind : String) (data : Json) : objectId? (typed kind data) =
    if kind = "delete" then data.text?
    else if kind = "create" ∨ kind = "modify" then (data.field? "id").bind Json.text?
    else none := by
  simp only [objectId?, field?_typed]

theorem field?_forViewer (path : String) (object : Object) :
    (Command.forViewer path object).field? "id" = some (.str (viewerId path)) := by
  show (object.insert "id" (.str (viewerId path))).get? "id" = _
  rw [Dict.get?_insert, if_pos rfl]

/-- Whatever a message about a path tells, it carries the id of the path. -/
theorem Message.objectId?_about (path : String) (object : Object) : ∀ message ∈
    [create (Command.forViewer path object), modify (Command.forViewer path object), delete (viewerId path)],
      objectId? message = some (viewerId path) := by
  intro message hmessage
  simp only [List.mem_cons, List.not_mem_nil, or_false] at hmessage
  rcases hmessage with rfl | rfl | rfl
  · rw [create, objectId?_typed, if_neg (by decide), if_pos (by decide), field?_forViewer]
    rfl
  · rw [modify, objectId?_typed, if_neg (by decide), if_pos (by decide), field?_forViewer]
    rfl
  · rw [delete, objectId?_typed, if_pos rfl]
    rfl

open Path (Canonical Below namesBelow segments)

variable {p q path : String}

/-- The namespace that the id of a physical object leaves out. -/
def idRoot (path : String) : String := if Below path Path.stray then Path.stray else Path.physical

/-- A stray object, and an object in the hierarchy that has the same names below its namespace. -/
def StrayTwins (p q : String) : Prop :=
  Below p Path.stray ∧ ¬Below q Path.stray ∧ namesBelow Path.stray p = namesBelow Path.physical q

instance (p q : String) : Decidable (StrayTwins p q) := inferInstanceAs (Decidable (_ ∧ _))

theorem canonical_physical : Canonical Path.physical ∧ Path.physical ≠ "/" := by decide

theorem canonical_stray : Canonical Path.stray ∧ Path.stray ≠ "/" := by decide

theorem canonical_idRoot (path : String) : Canonical (idRoot path) := by
  unfold idRoot
  split
  · exact canonical_stray.1
  · exact canonical_physical.1

theorem below_idRoot (h : Below path Path.physical) : Below path (idRoot path) := by
  unfold idRoot
  split
  · assumption
  · exact h

/-- The id of a physical object is made of the names below the namespace that it leaves out. -/
theorem viewerId_eq (hpath : Canonical path) (h : Below path Path.physical) :
    viewerId path = ".".intercalate (namesBelow (idRoot path) path) := by
  rw [viewerId, Path.dottedId?_eq hpath canonical_stray.1 canonical_stray.2,
    Path.dottedId?_eq hpath canonical_physical.1 canonical_physical.2, if_pos h, idRoot]
  by_cases hstray : Below path Path.stray
  · simp only [if_pos hstray]
  · simp only [if_neg hstray, Option.getD_some]

theorem namesBelow_idRoot_eq_iff (hp : Canonical p) (hq : Canonical q) (hpbelow : Below p Path.physical)
    (hqbelow : Below q Path.physical) :
    namesBelow (idRoot p) p = namesBelow (idRoot q) q ↔ p = q ∨ StrayTwins p q ∨ StrayTwins q p := by
  constructor
  · intro h
    by_cases hpstray : Below p Path.stray <;> by_cases hqstray : Below q Path.stray
    · rw [idRoot, idRoot, if_pos hpstray, if_pos hqstray] at h
      exact .inl (Path.eq_of_namesBelow_eq hp hq hpstray.1 hqstray.1 h)
    · rw [idRoot, idRoot, if_pos hpstray, if_neg hqstray] at h
      exact .inr (.inl ⟨hpstray, hqstray, h⟩)
    · rw [idRoot, idRoot, if_neg hpstray, if_pos hqstray] at h
      exact .inr (.inr ⟨hqstray, hpstray, h.symm⟩)
    · rw [idRoot, idRoot, if_neg hpstray, if_neg hqstray] at h
      exact .inl (Path.eq_of_namesBelow_eq hp hq hpbelow.1 hqbelow.1 h)
  · rintro (rfl | ⟨hpstray, hqstray, h⟩ | ⟨hqstray, hpstray, h⟩)
    · rfl
    · rw [idRoot, idRoot, if_pos hpstray, if_neg hqstray, h]
    · rw [idRoot, idRoot, if_neg hpstray, if_pos hqstray, h]

/-- Physical objects without dots in their names have the same id exactly if they are the same or one is a stray object and the other has its names in the hierarchy; and so a message that creates, changes or deletes an object is about no other object than these. -/
theorem viewerId_eq_iff_twins (hp : Canonical p) (hq : Canonical q) (hpbelow : Below p Path.physical)
    (hqbelow : Below q Path.physical) (hpdots : ∀ s ∈ segments p, '.' ∉ s.toList)
    (hqdots : ∀ s ∈ segments q, '.' ∉ s.toList) :
    (viewerId p = viewerId q ↔ p = q ∨ StrayTwins p q ∨ StrayTwins q p) ∧
    ∀ object : Object, ∀ message ∈ [Message.create (Command.forViewer p object),
      Message.modify (Command.forViewer p object), Message.delete (viewerId p)],
      (Message.objectId? message = some (viewerId q) ↔ p = q ∨ StrayTwins p q ∨ StrayTwins q p) := by
  have hids : viewerId p = viewerId q ↔ p = q ∨ StrayTwins p q ∨ StrayTwins q p := by
    rw [viewerId_eq hp hpbelow, viewerId_eq hq hqbelow, ← namesBelow_idRoot_eq_iff hp hq hpbelow hqbelow]
    refine Path.intercalate_dot_inj (Path.namesBelow_ne_nil hp (canonical_idRoot p) (below_idRoot hpbelow))
      (Path.namesBelow_ne_nil hq (canonical_idRoot q) (below_idRoot hqbelow)) ?_ ?_
    · exact fun name hname => hpdots name (List.mem_of_mem_drop hname)
    · exact fun name hname => hqdots name (List.mem_of_mem_drop hname)
  refine ⟨hids, fun object message hmessage => ?_⟩
  rw [Message.objectId?_about p object message hmessage, Option.some.injEq, hids]

/-- A stray device has another id than the device of that name in a rack. -/
theorem viewerId_eq_iff_twins_rack : Canonical "/Physical/Stray/d" ∧ Canonical "/Physical/r/d" ∧
    Below "/Physical/Stray/d" Path.physical ∧ Below "/Physical/r/d" Path.physical ∧
    (∀ s ∈ segments "/Physical/Stray/d", '.' ∉ s.toList) ∧
    (∀ s ∈ segments "/Physical/r/d", '.' ∉ s.toList) ∧
    viewerId "/Physical/Stray/d" ≠ viewerId "/Physical/r/d" ∧
    Message.objectId? (Message.delete (viewerId "/Physical/Stray/d")) ≠ some (viewerId "/Physical/r/d") := by
  have hstray : Canonical "/Physical/Stray/d" ∧ Below "/Physical/Stray/d" Path.physical ∧
      ∀ s ∈ segments "/Physical/Stray/d", '.' ∉ s.toList := by decide
  have hrack : Canonical "/Physical/r/d" ∧ Below "/Physical/r/d" Path.physical ∧
      ∀ s ∈ segments "/Physical/r/d", '.' ∉ s.toList := by decide
  have hother : ¬("/Physical/Stray/d" = "/Physical/r/d" ∨ StrayTwins "/Physical/Stray/d" "/Physical/r/d" ∨
      StrayTwins "/Physical/r/d" "/Physical/Stray/d") := by decide
  obtain ⟨hids, hmessages⟩ :=
    viewerId_eq_iff_twins hstray.1 hrack.1 hstray.2.1 hrack.2.1 hstray.2.2 hrack.2.2
  refine ⟨hstray.1, hrack.1, hstray.2.1, hrack.2.1, hstray.2.2, hrack.2.2, mt hids.1 hother, ?_⟩
  exact mt (hmessages .empty _ (by simp)).1 hother

/-- A site and a stray object of that name have the same id: when the stray object is deleted, the viewer is told that the site is. -/
theorem viewerId_of_stray_twins : ∃ (s s' : Session Store Recorder) (value : Value),
    Canonical "/Physical/a" ∧ Canonical "/Physical/Stray/a" ∧
    Below "/Physical/a" Path.physical ∧ Below "/Physical/Stray/a" Path.physical ∧
    (∀ s ∈ segments "/Physical/a", '.' ∉ s.toList) ∧
    (∀ s ∈ segments "/Physical/Stray/a", '.' ∉ s.toList) ∧
    viewerId "/Physical/a" = viewerId "/Physical/Stray/a" ∧ "/Physical/a" ≠ "/Physical/Stray/a" ∧
    Session.eval (.delete (.literalPath "/P/Stray/a")) s = .ok value s' ∧
    s'.hierarchy.objects.contains "/Physical/a" ∧
    s'.viewer.messages = #[Message.delete (viewerId "/Physical/a")] := by
  have hdelete : Session.eval (.delete (.literalPath "/P/Stray/a")) {
      hierarchy := (Store.empty.insert "/Physical/a" .empty).insert "/Physical/Stray/a" .empty,
      viewer := { connected := true : Recorder } } = .ok (.list [.str "/Physical/Stray/a"]) {
        hierarchy := Store.empty.insert "/Physical/a" .empty, output := #["/Physical/Stray/a deleted"],
        viewer := { connected := true, messages := #[Message.delete "a"] } } := rfl
  exact ⟨_, _, _, by decide, by decide, by decide, by decide, by decide, by decide, rfl, by decide, hdelete,
    by decide, rfl⟩

end TwinShell
