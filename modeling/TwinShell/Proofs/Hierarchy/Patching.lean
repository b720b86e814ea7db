import TwinShell.Hierarchy.Store
import TwinShell.Proofs.Dict

/-!
# What a patch does to an object

A patch is applied field by field. Its fields have different keys, so what becomes of a field depends on that field alone: it is kept, removed by `null`, replaced, or merged in the case of two objects under `attributes`. The merge treats the attributes in the same way as the patch treats the fields. An object without attributes takes those of the patch as they are, though, and then a `null` among them is kept; it is removed only when the patch is applied once more.

The fields of a document are read as a dictionary, so that nothing here depends on the order in which they are written.
-/

namespace TwinShell

def attributesOf? (object : Object) : Option Object := (object.get? "attributes").bind Json.object?

/-- What becomes of a field of which a patch says `new`: a field that is not mentioned is kept, and `null` removes it. -/
def patched? (old new : Option Json) : Option Json :=
  match new with
  | none => old
  | some value => if value.isNull then none else some value

/-- The result of applying a patch to an object. -/
structure IsMerge (object patch result : Object) : Prop where
  kept : ∀ key, patch.get? key = none → result.get? key = object.get? key
  removed : ∀ key, patch.get? key = some .null → result.get? key = none
  /-- A value replaces what was there unless both are attributes. -/
  replaced : ∀ key value, patch.get? key = some value → value.isNull = false →
    (key = "attributes" → attributesOf? patch = none ∨ attributesOf? object = none) →
    result.get? key = some value
  merged : ∀ update attributes, attributesOf? patch = some update → attributesOf? object = some attributes →
    ∃ merged, result.get? "attributes" = some (Json.ofObject merged) ∧
      ∀ name, merged.get? name = patched? (attributes.get? name) (update.get? name)

/-- The attributes of the patch are merged into those of the object, which may have none. -/
def MergesAttributes (object patch result : Object) : Prop :=
  ∀ update, attributesOf? patch = some update → ∃ merged, attributesOf? result = some merged ∧
    ∀ name, merged.get? name = patched? ((attributesOf? object).bind (·.get? name)) (update.get? name)

/-- The patch has a `null` among its attributes and the object has no attributes to remove it from. -/
def LeavesNull (object patch : Object) : Prop :=
  attributesOf? object = none ∧
    ∃ update name, attributesOf? patch = some update ∧ update.get? name = some .null

/-! ### Fields -/

theorem Json.isNull_iff {json : Json} : json.isNull ↔ json = .null := by
  cases json <;> simp [Json.isNull]

theorem Json.object?_ofObject (object : Object) : (Json.ofObject object).object? = some object :=
  congrArg some (Dict.ofList_entries object)

theorem patched?_or (old first second : Option Json) :
    patched? old (second.or first) = patched? (patched? old first) second := by
  cases second <;> rfl

theorem patched?_patched? (old new : Option Json) : patched? (patched? old new) new = patched? old new := by
  cases new <;> rfl

namespace Store

variable {object object' patch : Object} {key : String} {value : Json}

theorem get?_setOrErase (object : Object) (key : String) (value : Json) (key' : String) :
    (setOrErase object key value).get? key' =
      patched? (object.get? key') ((Dict.empty.insert key value).get? key') := by
  rw [setOrErase, Dict.get?_insert]
  split
  · rename_i hnull
    rw [Dict.get?_erase]
    split
    · exact (if_pos hnull).symm
    · rfl
  · rename_i hnull
    rw [Dict.get?_insert]
    split
    · exact (if_neg hnull).symm
    · rfl

/-- Setting and removing one after the other, seen from one key. -/
theorem get?_foldl_setOrErase (fields : List (String × Json)) (object : Object) (key : String) :
    (fields.foldl (fun o e => setOrErase o e.1 e.2) object).get? key =
      patched? (object.get? key) ((Dict.ofList fields).get? key) := by
  induction fields generalizing object with
  | nil => rfl
  | cons field fields ih =>
    have hcons : Dict.ofList (field :: fields) = (Dict.empty.insert field.1 field.2).insertAll fields := rfl
    rw [List.foldl_cons, ih, get?_setOrErase, hcons, Dict.get?_insertAll, patched?_or]

def mergeFields (update current : List (String × Json)) : Object :=
  update.foldl (fun o e => setOrErase o e.1 e.2) (Dict.ofList current)

theorem get?_mergeFields (update current : List (String × Json)) (name : String) :
    (mergeFields update current).get? name =
      patched? ((Dict.ofList current).get? name) ((Dict.ofList update).get? name) :=
  get?_foldl_setOrErase update (Dict.ofList current) name

theorem patchField_of_objects {update current : List (String × Json)}
    (h : object.get? "attributes" = some (.obj current)) :
    patchField object "attributes" (.obj update) =
      object.insert "attributes" (Json.ofObject (mergeFields update current)) := by
  simp only [patchField, h]
  rfl

theorem patchField_of_not_objects
    (h : ∀ update current, key = "attributes" → value = .obj update → object.get? key ≠ some (.obj current)) :
    patchField object key value = setOrErase object key value := by
  unfold patchField
  split
  · rename_i hcurrent
    exact absurd hcurrent (h _ _ rfl rfl)
  · rfl

/-- A field is patched in one of two ways. -/
theorem patchField_cases (object : Object) (key : String) (value : Json) :
    (∃ update current, key = "attributes" ∧ value = .obj update ∧
      object.get? "attributes" = some (.obj current) ∧
      patchField object key value =
        object.insert "attributes" (Json.ofObject (mergeFields update current))) ∨
    (∀ update current, key = "attributes" → value = .obj update → object.get? key ≠ some (.obj current)) ∧
      patchField object key value = setOrErase object key value := by
  by_cases h : ∃ update current, key = "attributes" ∧ value = .obj update ∧
      object.get? key = some (.obj current)
  · obtain ⟨update, current, rfl, rfl, hcurrent⟩ := h
    exact .inl ⟨update, current, rfl, rfl, hcurrent, patchField_of_objects hcurrent⟩
  · have hnot : ∀ update current, key = "attributes" → value = .obj update →
        object.get? key ≠ some (.obj current) :=
      fun update current hkey hvalue hcurrent => h ⟨update, current, hkey, hvalue, hcurrent⟩
    exact .inr ⟨hnot, patchField_of_not_objects hnot⟩

theorem get?_patchField_of_ne {key' : String} (hne : key' ≠ key) (object : Object) (value : Json) :
    (patchField object key value).get? key' = object.get? key' := by
  rcases patchField_cases object key value with ⟨update, current, rfl, rfl, -, heq⟩ | ⟨-, heq⟩
  · rw [heq, Dict.get?_insert, if_neg hne]
  · rw [heq, get?_setOrErase, Dict.get?_insert, if_neg hne]
    rfl

/-- What becomes of a field depends on that field alone. -/
theorem get?_patchField_congr (h : object.get? key = object'.get? key) :
    (patchField object key value).get? key = (patchField object' key value).get? key := by
  rcases patchField_cases object key value with ⟨update, current, rfl, rfl, hcurrent, heq⟩ | ⟨hnot, heq⟩
  · rw [heq, patchField_of_objects (h ▸ hcurrent), Dict.get?_insert, Dict.get?_insert]
    rfl
  · rw [heq, patchField_of_not_objects fun update current => h ▸ hnot update current, get?_setOrErase,
      get?_setOrErase, h]

theorem get?_foldl_patchField {entries : List (String × Json)} (hsorted : Assoc.Sorted entries)
    (object : Object) (key : String) :
    (entries.foldl (fun o e => patchField o e.1 e.2) object).get? key =
      match Assoc.find? key entries with
      | none => object.get? key
      | some value => (patchField object key value).get? key := by
  induction entries generalizing object with
  | nil => rfl
  | cons entry entries ih =>
    obtain ⟨hfirst, hrest⟩ := List.pairwise_cons.1 hsorted
    rw [List.foldl_cons, ih hrest, Assoc.find?]
    by_cases hkey : entry.1 = key
    · have hnone : Assoc.find? key entries = none :=
        Assoc.find?_eq_none_iff.2 fun e he heq => String.lt_irrefl _ (heq ▸ hkey ▸ hfirst e he)
      rw [if_pos hkey, hnone, hkey]
    · have hother := get?_patchField_of_ne (Ne.symm hkey) object entry.2
      rw [if_neg hkey]
      split
      · exact hother
      · exact get?_patchField_congr hother

/-- A patch, seen from one key. -/
theorem get?_applyPatch (object patch : Object) (key : String) :
    (applyPatch object patch).get? key =
      match patch.get? key with
      | none => object.get? key
      | some value => (patchField object key value).get? key :=
  get?_foldl_patchField patch.sorted object key

theorem get?_patchField_of_not_objects
    (h : ∀ update current, key = "attributes" → value = .obj update → object.get? key ≠ some (.obj current)) :
    (patchField object key value).get? key = if value.isNull then none else some value := by
  rw [patchField_of_not_objects h, get?_setOrErase, Dict.get?_insert, if_pos rfl]
  rfl

end Store

/-! ### Merging -/

variable {object patch result again attributes update : Object}

theorem attributesOf?_eq_some_iff : attributesOf? object = some attributes ↔
    ∃ fields, object.get? "attributes" = some (.obj fields) ∧ Dict.ofList fields = attributes := by
  rw [attributesOf?, Option.bind_eq_some_iff]
  constructor
  · rintro ⟨json, hjson, hobject⟩
    cases json with
    | obj fields => exact ⟨fields, hjson, Option.some.inj hobject⟩
    | _ => cases hobject
  · rintro ⟨fields, hfields, rfl⟩
    exact ⟨.obj fields, hfields, rfl⟩

theorem attributesOf?_ne_none {fields : List (String × Json)}
    (h : object.get? "attributes" = some (.obj fields)) : attributesOf? object ≠ none := by
  rw [attributesOf?_eq_some_iff.2 ⟨fields, h, rfl⟩]
  exact Option.some_ne_none _

theorem attributesOf?_ofObject (h : object.get? "attributes" = some (Json.ofObject attributes)) :
    attributesOf? object = some attributes := by
  rw [attributesOf?, h, Option.bind_some, Json.object?_ofObject]

theorem isMerge_applyPatch (object patch : Object) : IsMerge object patch (Store.applyPatch object patch) where
  kept key hkey := by rw [Store.get?_applyPatch, hkey]
  removed key hkey := by
    rw [Store.get?_applyPatch, hkey]
    exact Store.get?_patchField_of_not_objects nofun
  replaced key value hkey hvalue hattributes := by
    rw [Store.get?_applyPatch, hkey]
    refine (Store.get?_patchField_of_not_objects ?_).trans (if_neg (Bool.eq_false_iff.1 hvalue))
    rintro update current rfl rfl hcurrent
    rcases hattributes rfl with hnone | hnone
    · exact attributesOf?_ne_none hkey hnone
    · exact attributesOf?_ne_none hcurrent hnone
  merged update attributes hupdate hattributes := by
    obtain ⟨fields, hpatch, rfl⟩ := attributesOf?_eq_some_iff.1 hupdate
    obtain ⟨current, hobject, rfl⟩ := attributesOf?_eq_some_iff.1 hattributes
    refine ⟨Store.mergeFields fields current, ?_, Store.get?_mergeFields fields current⟩
    rw [Store.get?_applyPatch, hpatch]
    simp only [Store.patchField_of_objects hobject, Dict.get?_insert, if_true]

namespace IsMerge

/-- An object without attributes takes those of the patch as they are. -/
theorem attributes_of_none (h : IsMerge object patch result) (hobject : attributesOf? object = none)
    (hpatch : attributesOf? patch = some update) : result.get? "attributes" = patch.get? "attributes" := by
  obtain ⟨fields, hfields, -⟩ := attributesOf?_eq_some_iff.1 hpatch
  rw [hfields]
  exact h.replaced "attributes" _ hfields rfl fun _ => .inr hobject

theorem mergesAttributes_iff (h : IsMerge object patch result) :
    MergesAttributes object patch result ↔ ¬LeavesNull object patch := by
  constructor
  · rintro hmerges ⟨hobject, update, name, hupdate, hnull⟩
    obtain ⟨merged, hmerged, hnames⟩ := hmerges update hupdate
    rw [attributesOf?, h.attributes_of_none hobject hupdate] at hmerged
    obtain rfl := Option.some.inj (hupdate.symm.trans hmerged)
    have hgone := hnames name
    rw [hnull] at hgone
    cases hgone
  · intro hnull update hupdate
    cases hobject : attributesOf? object with
    | some attributes =>
      obtain ⟨merged, hmerged, hnames⟩ := h.merged update attributes hupdate hobject
      exact ⟨merged, attributesOf?_ofObject hmerged, hnames⟩
    | none =>
      refine ⟨update, by rw [attributesOf?, h.attributes_of_none hobject hupdate]; exact hupdate, fun name => ?_⟩
      cases hname : update.get? name with
      | none => rfl
      | some value =>
        refine (if_neg fun hvalue => hnull ⟨hobject, update, name, hupdate, ?_⟩).symm
        rw [hname, Json.isNull_iff.1 hvalue]

/-- If the attributes of the patch are written in order, then so are those of the result. -/
theorem attributes_eq (h : IsMerge object patch result)
    (hsorted : ∀ fields, patch.get? "attributes" = some (.obj fields) → Assoc.Sorted fields)
    (hpatch : attributesOf? patch = some update) (hresult : attributesOf? result = some attributes) :
    result.get? "attributes" = some (Json.ofObject attributes) := by
  cases hobject : attributesOf? object with
  | some old =>
    obtain ⟨merged, hmerged, -⟩ := h.merged update old hpatch hobject
    obtain rfl := Option.some.inj (hresult.symm.trans (attributesOf?_ofObject hmerged))
    exact hmerged
  | none =>
    obtain ⟨fields, hfields, -⟩ := attributesOf?_eq_some_iff.1 hpatch
    have htaken := (h.attributes_of_none hobject hpatch).trans hfields
    rw [attributesOf?, htaken] at hresult
    obtain rfl : Dict.ofList fields = attributes := Option.some.inj hresult
    rw [htaken, Json.ofObject, Dict.entries_ofList (hsorted fields hfields)]

/-- Applying a patch once more changes nothing, unless a `null` was left. -/
theorem eq_iff (h : IsMerge object patch result) (hagain : IsMerge result patch again)
    (hsorted : ∀ fields, patch.get? "attributes" = some (.obj fields) → Assoc.Sorted fields) :
    again = result ↔ ¬LeavesNull object patch := by
  constructor
  · rintro rfl ⟨hobject, update, name, hupdate, hnull⟩
    have hresult : attributesOf? again = some update := by
      rw [attributesOf?, h.attributes_of_none hobject hupdate]
      exact hupdate
    obtain ⟨merged, hmerged, hnames⟩ := hagain.merged update update hupdate hresult
    obtain rfl := Option.some.inj (hresult.symm.trans (attributesOf?_ofObject hmerged))
    have hgone := hnames name
    rw [hnull] at hgone
    cases hgone
  · intro hnull
    have hattributes : attributesOf? patch ≠ none → again.get? "attributes" = result.get? "attributes" := by
      intro hpatch
      obtain ⟨update, hupdate⟩ := Option.ne_none_iff_exists'.1 hpatch
      obtain ⟨merged, hmerged, hnames⟩ := h.mergesAttributes_iff.2 hnull update hupdate
      obtain ⟨merged', hmerged', hnames'⟩ := hagain.merged update merged hupdate hmerged
      have hsame : merged' = merged := by
        refine Dict.ext_get? fun name value => ?_
        rw [hnames', hnames, patched?_patched?]
      rw [hmerged', h.attributes_eq hsorted hupdate hmerged, hsame]
    have hfields : ∀ key, again.get? key = result.get? key := by
      intro key
      cases hkey : patch.get? key with
      | none => exact hagain.kept key hkey
      | some value =>
        by_cases hvalue : value.isNull
        · rw [Json.isNull_iff.1 hvalue] at hkey
          rw [hagain.removed key hkey, h.removed key hkey]
        by_cases hmerge : key = "attributes" ∧ attributesOf? patch ≠ none
        · rw [hmerge.1]
          exact hattributes hmerge.2
        · have hnone : key = "attributes" → attributesOf? patch = none := by simpa using hmerge
          rw [hagain.replaced key value hkey (Bool.eq_false_iff.2 hvalue) fun heq => .inl (hnone heq),
            h.replaced key value hkey (Bool.eq_false_iff.2 hvalue) fun heq => .inl (hnone heq)]
    exact Dict.ext_get? fun key value => by rw [hfields key]

end IsMerge

/-- Updating an object merges the patch into it, and leaves all other objects alone. Attributes are merged name by name, and applying the patch once more changes nothing, exactly if the patch leaves no `null` behind: that is, unless there is one among its attributes and the object has none. The attributes of the patch are written in order, as those of all documents are. -/
theorem Store.updateObject_isMerge (s : Store) (path : String) (object patch : Object)
    (hstored : s.objects.get? path = some object) :
    ∃ result s', s.updateObject path patch = .ok (result, s') ∧
      s'.objects.get? path = some result ∧ (∀ other, other ≠ path → s'.objects.get? other = s.objects.get? other) ∧
      IsMerge object patch result ∧ (MergesAttributes object patch result ↔ ¬LeavesNull object patch) ∧
      ((∀ fields, patch.get? "attributes" = some (.obj fields) → Assoc.Sorted fields) →
        (s'.updateObject path patch = .ok (result, s') ↔ ¬LeavesNull object patch)) := by
  have hmerge := isMerge_applyPatch object patch
  generalize hresult : applyPatch object patch = result at hmerge
  refine ⟨result, ⟨s.objects.insert path result⟩, ?_, ?_, ?_, hmerge, hmerge.mergesAttributes_iff, ?_⟩
  · rw [updateObject, hstored, ← hresult]
  · rw [Dict.get?_insert, if_pos rfl]
  · intro other hother
    rw [Dict.get?_insert, if_neg hother]
  · intro hsorted
    rw [updateObject, Dict.get?_insert, if_pos rfl]
    rw [← hmerge.eq_iff (isMerge_applyPatch result patch) hsorted]
    constructor
    · intro heq
      exact (Prod.mk.inj (Except.ok.inj heq)).1
    · intro heq
      simp only [heq, Dict.insert_insert_self]

/-- A patch for an object that has attributes: a `null` removes one of them and a new one is added. -/
theorem Store.updateObject_isMerge_site : ∃ (s : Store) (object patch result : Object),
    s.objects.get? "/Physical/a" = some object ∧
    attributesOf? patch = some (Dict.ofList [("x", .null), ("y", .int 2)]) ∧ ¬LeavesNull object patch ∧
    (∃ s', s.updateObject "/Physical/a" patch = .ok (result, s')) ∧ MergesAttributes object patch result := by
  let object : Object := Dict.ofList [("attributes", .obj [("x", .int 1)])]
  let patch : Object := Dict.ofList [("attributes", .obj [("x", .null), ("y", .int 2)])]
  let s : Store := Store.empty.insert "/Physical/a" object
  have hstored : s.objects.get? "/Physical/a" = some object := rfl
  have hnull : ¬LeavesNull object patch := fun hleaves => Option.some_ne_none _ hleaves.1
  obtain ⟨result, s', hrun, -, -, -, hmerges, -⟩ := updateObject_isMerge s "/Physical/a" object patch hstored
  exact ⟨s, object, patch, result, hstored, rfl, hnull, ⟨s', hrun⟩, hmerges.2 hnull⟩

/-- An object without attributes keeps the `null` of a patch, until the patch is applied once more. -/
theorem Store.updateObject_keeps_null : ∃ (s s' s'' : Store) (patch first second : Object),
    s.objects.get? "/Physical/a" = some .empty ∧
    (attributesOf? patch).bind (·.get? "x") = some .null ∧
    s.updateObject "/Physical/a" patch = .ok (first, s') ∧
    (attributesOf? first).bind (·.get? "x") = some .null ∧
    s'.updateObject "/Physical/a" patch = .ok (second, s'') ∧
    (attributesOf? second).bind (·.get? "x") = none :=
  ⟨Store.empty.insert "/Physical/a" .empty, _, _, Dict.ofList [("attributes", .obj [("x", .null)])], _, _,
    rfl, rfl, rfl, rfl, rfl, rfl⟩

end TwinShell
