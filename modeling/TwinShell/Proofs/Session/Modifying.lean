import Mathlib.Data.List.InsertIdx
import TwinShell.Proofs.Hierarchy.Patching
import TwinShell.Proofs.Session.Atomic
import TwinShell.Proofs.Value.Documents

/-!
# What an update stores and what removing an item leaves

An update of an ordinary attribute, and the removal of an item of an array, change one attribute of each object they apply to: they amount to a patch, which is merged into the object. What the object then holds is the document of a value. So a value without a document of its own does not come to be stored: the patch then says `null`, and the attribute is removed. And the items left in an array are those it had before only if they are written as they were read.
-/

namespace TwinShell

/-! ### What an object holds -/

/-- What an object holds under a name: for some names a field, for all others an attribute. -/
def heldAt? (object : Object) (key : String) : Option Json :=
  if topLevelKeys.contains key then object.get? key else (object.get? "attributes").bind (·.field? key)

/-- The patch for what an object holds under a name. -/
def heldPatch (key : String) (value : Json) : Object :=
  if topLevelKeys.contains key then patchOf key value else attributePatch key value

/-- Two objects hold the same, what they hold under one name apart. -/
structure SameBut (key : String) (object updated : Object) : Prop where
  fields : ∀ field, field ≠ (if topLevelKeys.contains key then key else "attributes") →
    updated.get? field = object.get? field
  attributes : ∀ name, (name = key → topLevelKeys.contains key) →
    (attributesOf? updated).bind (·.get? name) = (attributesOf? object).bind (·.get? name)

variable {object updated patch attributes : Object} {key : String} {value : Json}

theorem get?_patchOf (key : String) (value : Json) (field : String) :
    (patchOf key value).get? field = if field = key then some value else none :=
  Dict.get?_insert .empty key field value

theorem attributesOf?_attributePatch (key : String) (value : Json) :
    attributesOf? (attributePatch key value) = some (patchOf key value) := rfl

theorem attributesOf?_congr (h : updated.get? "attributes" = object.get? "attributes") :
    attributesOf? updated = attributesOf? object := by
  rw [attributesOf?, attributesOf?, h]

theorem ne_attributes_of_topLevel (hkey : topLevelKeys.contains key) : key ≠ "attributes" := by
  rintro rfl
  cases hkey

/-- The attributes after a patch for one of them. -/
theorem IsMerge.attributes_of_attributePatch (h : IsMerge object (attributePatch key value) updated)
    (hattributes : attributesOf? object = some attributes) :
    ∃ merged, updated.get? "attributes" = some (Json.ofObject merged) ∧ ∀ name, merged.get? name =
      if name = key then (if value.isNull then none else some value) else attributes.get? name := by
  obtain ⟨merged, hmerged, hnames⟩ := h.merged _ _ (attributesOf?_attributePatch key value) hattributes
  refine ⟨merged, hmerged, fun name => ?_⟩
  rw [hnames, get?_patchOf]
  split <;> rfl

theorem IsMerge.sameBut (h : IsMerge object (heldPatch key value) updated) : SameBut key object updated := by
  unfold heldPatch at h
  by_cases hkey : topLevelKeys.contains key
  · rw [if_pos hkey] at h
    have hkept : ∀ field, field ≠ key → updated.get? field = object.get? field :=
      fun field hne => h.kept field (by rw [get?_patchOf, if_neg hne])
    refine ⟨fun field hne => hkept field (by rwa [if_pos hkey] at hne), fun name _ => ?_⟩
    rw [attributesOf?_congr (hkept _ (ne_attributes_of_topLevel hkey).symm)]
  · rw [if_neg hkey] at h
    refine ⟨fun field hne => h.kept field ?_, fun name hname => ?_⟩
    · rw [if_neg hkey] at hne
      rw [attributePatch, get?_patchOf, if_neg hne]
    have hne : name ≠ key := fun heq => hkey (hname heq)
    cases hattributes : attributesOf? object with
    | some attributes =>
      obtain ⟨merged, hmerged, hnames⟩ := h.attributes_of_attributePatch hattributes
      rw [attributesOf?_ofObject hmerged, Option.bind_some, Option.bind_some, hnames, if_neg hne]
    | none =>
      have htaken := attributesOf?_congr (h.attributes_of_none hattributes (attributesOf?_attributePatch key value))
      rw [htaken, attributesOf?_attributePatch, Option.bind_some, get?_patchOf, if_neg hne]
      rfl

theorem attributesOf?_of_heldAt? (h : heldAt? object key = some value) (hkey : topLevelKeys.contains key = false) :
    ∃ attributes, attributesOf? object = some attributes := by
  unfold heldAt? at h
  rw [hkey, if_neg Bool.false_ne_true, Option.bind_eq_some_iff] at h
  obtain ⟨json, hjson, hfield⟩ := h
  cases json with
  | obj fields => exact ⟨_, attributesOf?_eq_some_iff.2 ⟨fields, hjson, rfl⟩⟩
  | _ => cases hfield

/-- What an object then holds under the name; an attribute needs attributes to be merged into. -/
theorem IsMerge.held (h : IsMerge object (heldPatch key value) updated)
    (hattributes : topLevelKeys.contains key = false → ∃ attributes, attributesOf? object = some attributes) :
    heldAt? updated key = if value.isNull then none else some value := by
  unfold heldPatch at h
  unfold heldAt?
  by_cases hkey : topLevelKeys.contains key
  · rw [if_pos hkey] at h ⊢
    have hpatch : (patchOf key value).get? key = some value := by rw [get?_patchOf, if_pos rfl]
    by_cases hnull : value.isNull
    · rw [if_pos hnull]
      exact h.removed key (Json.isNull_iff.1 hnull ▸ hpatch)
    · rw [if_neg hnull]
      refine h.replaced key value hpatch (Bool.eq_false_iff.2 hnull) fun heq => ?_
      exact absurd heq (ne_attributes_of_topLevel hkey)
  · rw [if_neg hkey] at h ⊢
    obtain ⟨attributes, hsome⟩ := hattributes (Bool.eq_false_iff.2 hkey)
    obtain ⟨merged, hmerged, hnames⟩ := h.attributes_of_attributePatch hsome
    rw [hmerged, Option.bind_some]
    exact (hnames key).trans (if_pos rfl)

/-! ### Changes at some paths -/

/-- Two stores differ at some paths at most. There both have an object, and the two are related. -/
structure ChangesAt (targets : List String) (R : String → Object → Object → Prop) (before after : Store) :
    Prop where
  other : ∀ path, path ∉ targets → after.objects.get? path = before.objects.get? path
  target : ∀ path ∈ targets, ∃ object updated, before.objects.get? path = some object ∧
    after.objects.get? path = some updated ∧ R path object updated

namespace ChangesAt

variable {R : String → Object → Object → Prop} {store before between after : Store} {target : String}
  {rest : List String}

theorem nil (R : String → Object → Object → Prop) (store : Store) : ChangesAt [] R store store :=
  ⟨fun _ _ => rfl, nofun⟩

theorem insert (hstored : store.objects.get? target = some object) (h : R target object updated) :
    ChangesAt [target] R store ⟨store.objects.insert target updated⟩ where
  other path hpath := by rw [Dict.get?_insert, if_neg (mt List.mem_singleton.2 hpath)]
  target path hpath := by
    obtain rfl := List.mem_singleton.1 hpath
    exact ⟨object, updated, hstored, by rw [Dict.get?_insert, if_pos rfl], h⟩

/-- The same path may be changed more than once. -/
theorem cons (htrans : ∀ path {a b c}, R path a b → R path b c → R path a c)
    (hfirst : ChangesAt [target] R before between) (hrest : ChangesAt rest R between after) :
    ChangesAt (target :: rest) R before after where
  other path hpath := by
    rw [List.mem_cons, not_or] at hpath
    rw [hrest.other path hpath.2, hfirst.other path (mt List.mem_singleton.1 hpath.1)]
  target path hpath := by
    by_cases htarget : path = target
    · obtain ⟨object, changed, hbefore, hbetween, hchanged⟩ :=
        hfirst.target path (List.mem_singleton.2 htarget)
      -- If the path comes again, the rest has started from what the first change made of it.
      by_cases hagain : path ∈ rest
      · obtain ⟨object', updated, hbetween', hafter, hupdated⟩ := hrest.target path hagain
        obtain rfl := Option.some.inj (hbetween.symm.trans hbetween')
        exact ⟨object, updated, hbefore, hafter, htrans path hchanged hupdated⟩
      · exact ⟨object, changed, hbefore, (hrest.other path hagain).trans hbetween, hchanged⟩
    · have hmem := (List.mem_cons.1 hpath).resolve_left htarget
      obtain ⟨object, updated, hbetween, hafter, hupdated⟩ := hrest.target path hmem
      rw [hfirst.other path (mt List.mem_singleton.1 htarget)] at hbetween
      exact ⟨object, updated, hbetween, hafter, hupdated⟩

end ChangesAt

/-! ### Patching a stored object -/

/-- The session in which the object at a path is patched. -/
def Session.withPatch {ν : Type} (s : Session Store ν) (target : String) (object patch : Object) :
    Session Store ν :=
  { s with hierarchy := ⟨s.hierarchy.objects.insert target (Store.applyPatch object patch)⟩ }

namespace Command

variable {ν : Type} {s s' : Session Store ν} {target : String}

theorem updateObject_eq_ok (hstored : s.hierarchy.objects.get? target = some object) (patch : Object) :
    onHierarchy (Hierarchy.updateObject target patch) s =
      .ok (Store.applyPatch object patch) (s.withPatch target object patch) :=
  changing_eq_ok (by rw [Store.updateObject, hstored])

theorem stored_of_updateObject (h : onHierarchy (Hierarchy.updateObject target patch) s = .ok updated s') :
    ∃ object, s.hierarchy.objects.get? target = some object := by
  cases hstored : s.hierarchy.objects.get? target with
  | some object => exact ⟨object, rfl⟩
  | none =>
    simp only [onHierarchy, Hierarchy.updateObject, Store.changing, Store.updateObject, hstored] at h
    cases h

variable [Viewer ν]

theorem notifyModified_eq_ok (target : String) (object : Object) (s : Session Store ν) :
    ∃ viewer, notifyModified target object s = .ok () { s with viewer } := by
  have hdrawn : isDrawn object s = .ok ((category? object).any s.env.settings.drawable.contains) s := rfl
  unfold notifyModified
  rw [bind_of_ok hdrawn]
  split
  · exact notify_eq_ok _ s
  · exact ⟨s.viewer, rfl⟩

/-- What patching a stored object and telling the viewer comes to. -/
theorem patchStored_eq {α : Type} (hstored : s.hierarchy.objects.get? target = some object) (patch : Object)
    (k : Object → Command Store ν α) :
    ∃ viewer, (do
      let object ← onHierarchy (Hierarchy.updateObject target patch)
      notifyModified target object
      k object) s = k (Store.applyPatch object patch) { s.withPatch target object patch with viewer } := by
  obtain ⟨viewer, hnotify⟩ :=
    notifyModified_eq_ok target (Store.applyPatch object patch) (s.withPatch target object patch)
  refine ⟨viewer, ?_⟩
  rw [bind_of_ok (updateObject_eq_ok hstored patch), bind_of_ok hnotify]

end Command

/-! ### Updates -/

/-- The attributes that are not simply stored. -/
def routedKeys : List String :=
  ["tags", "separators", "pillars", "areas", "separators+", "pillars+", "separators-", "pillars-", "label",
    "labelFont", "labelBackground", "tags+", "tags-", "description", "domain"] ++ displaySwitches

/-- An object was given a value for an attribute: nothing else has changed, and if it has attributes, then it holds the value, unless that is `null`. -/
structure Receives (key : String) (value : Json) (object updated : Object) : Prop where
  same : SameBut key object updated
  attributes : attributesOf? object ≠ none → attributesOf? updated ≠ none
  held : attributesOf? object ≠ none → heldAt? updated key = if value.isNull then none else some value

theorem SameBut.trans {object' : Object} (h : SameBut key object updated) (h' : SameBut key updated object') :
    SameBut key object object' where
  fields field hne := (h'.fields field hne).trans (h.fields field hne)
  attributes name hname := (h'.attributes name hname).trans (h.attributes name hname)

theorem Receives.trans {object' : Object} (h : Receives key value object updated)
    (h' : Receives key value updated object') : Receives key value object object' where
  same := h.same.trans h'.same
  attributes hsome := h'.attributes (h.attributes hsome)
  held hsome := h'.held (h.attributes hsome)

theorem not_topLevel_of_not_routed (hkey : key ∉ routedKeys) : topLevelKeys.contains key = false := by
  have hsub : ∀ other ∈ topLevelKeys, other ∈ routedKeys := by decide
  rw [List.contains_eq_mem, decide_eq_false_iff_not]
  exact mt (hsub key) hkey

theorem receives_applyPatch (hkey : topLevelKeys.contains key = false) (object : Object) (value : Json) :
    Receives key value object (Store.applyPatch object (attributePatch key value)) := by
  have hpatch : attributePatch key value = heldPatch key value := by
    rw [heldPatch, if_neg (Bool.eq_false_iff.1 hkey)]
  have hmerge := isMerge_applyPatch object (heldPatch key value)
  rw [hpatch]
  refine ⟨hmerge.sameBut, fun hsome => ?_, fun hsome => hmerge.held fun _ => Option.ne_none_iff_exists'.1 hsome⟩
  obtain ⟨attributes, hattributes⟩ := Option.ne_none_iff_exists'.1 hsome
  rw [← hpatch] at hmerge ⊢
  obtain ⟨merged, hmerged, -⟩ := hmerge.attributes_of_attributePatch hattributes
  rw [attributesOf?_ofObject hmerged]
  exact Option.some_ne_none _

namespace Command

variable {ν : Type} {s s' : Session Store ν} {target : String} {sharp : Bool} {v : Value}

theorem settle_eq_ok {α : Type} {r : Except EvalError α} {a : α} (h : settle r s = .ok a s') :
    r = .ok a ∧ s' = s := by
  cases r with
  | ok b =>
    cases h
    exact ⟨rfl, rfl⟩
  | error e => cases h

variable [Viewer ν]

/-- The patch of an ordinary attribute, for objects other than tags. -/
theorem updatePatch_eq_ok {patch : Option Object} (hkey : key ∉ routedKeys)
    (h : updatePatch target key [v] sharp s = .ok patch s') :
    s' = s ∧ ∃ fields, patch = some fields ∧
      (Path.isUnder target Path.tags = false → fields = attributePatch key v.toJson) := by
  unfold updatePatch at h
  split at h
  · rename_i htags
    obtain ⟨fields, s₁, hfields, hpatch⟩ := bind_eq_ok h
    obtain ⟨-, rfl⟩ := settle_eq_ok hfields
    cases hpatch
    exact ⟨rfl, fields, rfl, fun hnot => absurd htags (Bool.eq_false_iff.1 hnot)⟩
  · split at h
    case h_16 =>
      have hswitch : ¬displaySwitches.contains key := by
        rw [List.contains_iff_mem]
        exact fun hmem => hkey (List.mem_append_right _ hmem)
      have hsingle : settle (singleValue [v] key) s = .ok v s := rfl
      rw [bind_of_ok hsingle, if_neg hswitch] at h
      cases h
      exact ⟨rfl, _, rfl, fun _ => rfl⟩
    -- All other cases are names with a route of their own.
    all_goals exact absurd (by decide) hkey

/-- What an update of an ordinary attribute does to an object; the objects among the tags have attributes of their own. -/
def UpdatedTo (key : String) (v : Value) (path : String) (object updated : Object) : Prop :=
  Path.isUnder path Path.tags = false → Receives key v.toJson object updated

theorem updateOne_changesAt {result : Option Value} (hkey : key ∉ routedKeys)
    (h : updateOne key [v] sharp target s = .ok result s') :
    ChangesAt [target] (UpdatedTo key v) s.hierarchy s'.hierarchy := by
  obtain ⟨patch, s₁, hpatch, hrest⟩ := bind_eq_ok h
  obtain ⟨rfl, fields, rfl, hfields⟩ := updatePatch_eq_ok hkey hpatch
  obtain ⟨object, hstored⟩ : ∃ object, s₁.hierarchy.objects.get? target = some object := by
    obtain ⟨_, _, hupdate, -⟩ := bind_eq_ok hrest
    exact stored_of_updateObject hupdate
  obtain ⟨viewer, hok⟩ := patchStored_eq hstored fields fun object =>
    pure (some (Value.object (object.erase "children")))
  obtain ⟨rfl, rfl⟩ : _ ∧ _ := EStateM.Result.ok.inj (hok.symm.trans hrest)
  refine .insert hstored fun htags => ?_
  rw [hfields htags]
  exact receives_applyPatch (not_topLevel_of_not_routed hkey) object v.toJson

theorem updateEach_changesAt {targets : List String} {results : List Value} (hkey : key ∉ routedKeys)
    (h : updateEach key [v] sharp targets s = .ok results s') :
    ChangesAt targets (UpdatedTo key v) s.hierarchy s'.hierarchy := by
  induction targets generalizing s results with
  | nil =>
    cases h
    exact .nil _ _
  | cons target rest ih =>
    obtain ⟨result, s₁, hfirst, hrest⟩ := bind_eq_ok h
    obtain ⟨others, s₂, hothers, hpure⟩ := bind_eq_ok hrest
    cases hpure
    refine .cons (fun path a b c hab hbc htags => (hab htags).trans (hbc htags)) ?_ (ih hothers)
    exact updateOne_changesAt hkey hfirst

/-- Finding out what an update applies to changes nothing, if the path is an expression. -/
theorem sameAs_of_updateTargets {path : Node} (hpath : path.Plain) {fuel : Nat} {targets : List String}
    (h : updateTargets (execute fuel) path s = .ok targets s') : s.SameAs s' := by
  have hsame := sameOn_within Node.Plain.part (execute (β := Store) (ν := ν) fuel)
  have hkeeps : Keeps s.SameAs (updateTargets (execute fuel) path) := by
    rw [updateTargets, evalTargets_congr hsame hpath]
    exact keeps_updateTargets (stable_sameAs s) (gives_within fun _ => keeps_execute_of_plain fuel) path
  exact (hkeeps.of_ok ⟨rfl, rfl⟩ h).1

end Command

namespace Session

variable {ν : Type} [Viewer ν] {s s' : Session Store ν}

/-- An update of an ordinary attribute that succeeds changes nothing but that attribute of the objects it applies to, compared with the session after its value was computed. An object that is no tag and has attributes then holds the document of the value, unless that is `null`: then it has lost the attribute. -/
theorem eval_update_stores {path value : Node} {sharp : Bool} {result : Value} (hkey : key ∉ routedKeys)
    (hpath : path.Plain) (heval : eval (.update path key [value] sharp) s = .ok result s') :
    ∃ v s₁ targets s₂, evalArgument value s = .ok v s₁ ∧
      Command.updateTargets evalArgument path s₁ = .ok targets s₂ ∧ s₁.SameAs s₂ ∧
      (∀ other, other ∉ targets → s'.hierarchy.objects.get? other = s₁.hierarchy.objects.get? other) ∧
      ∀ target ∈ targets, Path.isUnder target Path.tags = false →
        ∃ object updated, s₁.hierarchy.objects.get? target = some object ∧
          s'.hierarchy.objects.get? target = some updated ∧ SameBut key object updated ∧
          (attributesOf? object ≠ none →
            heldAt? updated key = if v.hasDocument then some v.toJson else none) := by
  rw [eval_eq_step] at heval
  obtain ⟨values, s₁, hvalues, hrest⟩ := Command.bind_eq_ok heval
  obtain ⟨v, _, hvalue, hnil⟩ := Command.bind_eq_ok hvalues
  cases hnil
  obtain ⟨targets, s₂, htargets, hrest⟩ := Command.bind_eq_ok hrest
  obtain ⟨results, s₃, heach, hresult⟩ := Command.bind_eq_ok hrest
  have hs' : s' = s₃ := by
    split at hresult <;> cases hresult <;> rfl
  have hsame := Command.sameAs_of_updateTargets hpath htargets
  have hchanges := Command.updateEach_changesAt hkey heach
  rw [hsame.2, ← hs'] at hchanges
  refine ⟨v, s₁, targets, s₂, hvalue, htargets, hsame, hchanges.other, fun target htarget htags => ?_⟩
  obtain ⟨object, updated, hbefore, hafter, hreceives⟩ := hchanges.target target htarget
  refine ⟨object, updated, hbefore, hafter, (hreceives htags).same, fun hsome => ?_⟩
  rw [(hreceives htags).held hsome, Value.isNull_toJson]
  cases v.hasDocument <;> rfl

/-- The selected objects are updated one after the other; the second one then holds the value too, beside what it held. -/
theorem eval_update_stores_selection : ∃ (s s' : Session Store Recorder) (result : Value) (updated : Object),
    "height" ∉ routedKeys ∧ (Node.literalPath "_").Plain ∧
    eval (.update (.literalPath "_") "height" [.literal (.int 2)] false) s = .ok result s' ∧
    s'.hierarchy.objects.get? "/Physical/b" = some updated ∧ heldAt? updated "height" = some (.int 2) ∧
    (attributesOf? updated).bind (·.get? "width") = some (.int 1) := by
  let object : Object := Dict.ofList [("attributes", .obj [("width", .int 1)])]
  obtain ⟨s, hs⟩ : ∃ s : Session Store Recorder, s = {
      hierarchy := (Store.empty.insert "/Physical/a" object).insert "/Physical/b" object, viewer := {},
      env := { selection := ["/Physical/a", "/Physical/b"] } } := ⟨_, rfl⟩
  have hkey : "height" ∉ routedKeys := by decide
  have hpath : (Node.literalPath "_").Plain := (Node.parsed_literalPath "_").plain rfl
  obtain ⟨result, s', heval⟩ : ∃ result s',
      eval (.update (.literalPath "_") "height" [.literal (.int 2)] false) s = .ok result s' := by
    rw [hs]
    exact ⟨_, _, rfl⟩
  have hvalue : evalArgument (.literal (.int 2)) s = .ok (.int 2) s := by rfl
  have htargets : Command.updateTargets evalArgument (.literalPath "_") s =
      .ok ["/Physical/a", "/Physical/b"] s := by
    rw [hs]
    rfl
  obtain ⟨v, s₁, targets, s₂, hv, ht, -, -, hstored⟩ := eval_update_stores hkey hpath heval
  rw [hvalue] at hv
  cases hv
  rw [htargets] at ht
  cases ht
  obtain ⟨before, updated, hbefore, hafter, hsame, hheld⟩ := hstored "/Physical/b" (by decide) (by decide)
  have hobject : before = object := by
    rw [hs] at hbefore
    exact (Option.some.inj hbefore).symm
  rw [hobject] at hsame hheld
  refine ⟨s, s', result, updated, hkey, hpath, heval, hafter, hheld (Option.some_ne_none _), ?_⟩
  exact hsame.attributes "width" (by decide)

/-- A command without a value of its own succeeds as the value of an update, which then removes the attribute. -/
theorem update_null_removes : ∃ (node : Node) (s s' : Session Store Recorder) (object updated : Object)
      (result : Value), Language.parse "/P/a:x=$(.var:y=1)" = .ok node ∧ eval node s = .ok result s' ∧
    s.hierarchy.objects.get? "/Physical/a" = some object ∧ heldAt? object "x" = some (.int 1) ∧
    s'.hierarchy.objects.get? "/Physical/a" = some updated ∧ heldAt? updated "x" = none := by
  refine ⟨.update (.literalPath "/P/a") "x" [.assign "y" (.literal (.int 1))] false,
    { hierarchy := Store.empty.insert "/Physical/a" (Dict.ofList [("attributes", .obj [("x", .int 1)])]),
      viewer := {} },
    { hierarchy := Store.empty.insert "/Physical/a" (Dict.ofList [("attributes", .obj [])]), viewer := {},
      env := ({} : Environment).setVariable "y" (.int 1) },
    Dict.ofList [("attributes", .obj [("x", .int 1)])], Dict.ofList [("attributes", .obj [])],
    .object (Dict.ofList [("attributes", .obj [])]), ?_, ?_, ?_, ?_, ?_, ?_⟩ <;> rfl

end Session

/-! ### Removing an item -/

namespace Command

variable {ν : Type} {ev : Node → Command Store ν Value} {s s' : Session Store ν} {path index : Node}
  {target : String} {i : Int64} {items : List Json}

/-- The patch for an array without one of its items. -/
theorem unsetPatch_eq (hindex : evalInt ev index "index" s = .ok i s)
    (hstored : s.hierarchy.objects.get? target = some object) (hheld : heldAt? object key = some (.arr items)) :
    unsetPatch ev target key (some index) s =
      if 0 ≤ i.toInt ∧ i.toInt < items.length then
        .ok (heldPatch key (.arr ((items.eraseIdx i.toInt.toNat).map (Json.passed items)))) s
      else .error (.failed (.index items.length i)) s := by
  unfold heldAt? at hheld
  refine (bind_of_ok hindex).trans ((bind_of_ok (getObject_eq_ok hstored)).trans ?_)
  simp only [hheld, Json.attributeItems?_arr, List.length_map, List.eraseIdx_map]
  split <;> rfl

variable [Viewer ν]

theorem unsetAttribute_eq_ok {patch : Object} (htarget : evalTargets ev path s = .ok [target] s)
    {index : Option Node} (hpatch : unsetPatch ev target key index s = .ok patch s)
    (hstored : s.hierarchy.objects.get? target = some object) :
    ∃ viewer, unsetAttribute ev path key index s =
      .ok .null { s.withPatch target object patch with viewer } := by
  obtain ⟨viewer, hrest⟩ := patchStored_eq hstored patch fun _ => unsetEach ev key index []
  have heach : unsetEach ev key index [target] s = .ok () { s.withPatch target object patch with viewer } :=
    (bind_of_ok hpatch).trans hrest
  refine ⟨viewer, ?_⟩
  rw [unsetAttribute, bind_of_ok htarget, bind_of_ok heach]
  rfl

theorem unsetAttribute_eq_error (htarget : evalTargets ev path s = .ok [target] s) {index : Option Node}
    {stop : Stop} (hpatch : unsetPatch ev target key index s = .error stop s) :
    unsetAttribute ev path key index s = .error stop s := by
  have heach : unsetEach ev key index [target] s = .error stop s := bind_of_error hpatch
  rw [unsetAttribute, bind_of_ok htarget, bind_of_error heach]

end Command

namespace Session

variable {ν : Type} [Viewer ν] {s : Session Store ν} {path index : Node} {target : String} {i : Int64}
  {items : List Json}

/-- Removing an item of an array with an index within the array leaves the other items, each of them as it is written after it was read, and changes nothing else; so they are the items that were there exactly if all of them survive that. With any other index it fails with an index error, and nothing changes at all. -/
theorem eval_unset_item (htarget : Command.evalTargets evalArgument path s = .ok [target] s)
    (hindex : Command.evalInt evalArgument index "index" s = .ok i s)
    (hstored : s.hierarchy.objects.get? target = some object) (hheld : heldAt? object key = some (.arr items)) :
    (0 ≤ i.toInt ∧ i.toInt < items.length → ∃ s' updated left,
      eval (.unsetAttribute path key (some index)) s = .ok .null s' ∧
      s'.hierarchy.objects.get? target = some updated ∧ heldAt? updated key = some (.arr left) ∧
      left = (items.eraseIdx i.toInt.toNat).map (Json.passed items) ∧
      (left = items.eraseIdx i.toInt.toNat ↔ ∀ item ∈ items.eraseIdx i.toInt.toNat, item.survivesIn items) ∧
      SameBut key object updated ∧
      ∀ other, other ≠ target → s'.hierarchy.objects.get? other = s.hierarchy.objects.get? other) ∧
    (¬(0 ≤ i.toInt ∧ i.toInt < items.length) →
      eval (.unsetAttribute path key (some index)) s = .error (.failed (.index items.length i)) s) := by
  have hpatch := Command.unsetPatch_eq hindex hstored hheld
  rw [eval_eq_step]
  constructor
  · intro hrange
    rw [if_pos hrange] at hpatch
    obtain ⟨viewer, hok⟩ := Command.unsetAttribute_eq_ok htarget hpatch hstored
    have hmerge := isMerge_applyPatch object
      (heldPatch key (.arr ((items.eraseIdx i.toInt.toNat).map (Json.passed items))))
    refine ⟨_, _, _, hok, (Dict.get?_insert ..).trans (if_pos rfl), ?_, rfl, ?_, hmerge.sameBut, ?_⟩
    · exact hmerge.held (attributesOf?_of_heldAt? hheld)
    · exact Json.map_passed_eq_iff List.eraseIdx_subset fun item _ =>
        Json.toJson_ofJson_eq_iff item
    · intro other hother
      exact (Dict.get?_insert ..).trans (if_neg hother)
  · intro hrange
    rw [if_neg hrange] at hpatch
    exact Command.unsetAttribute_eq_error htarget hpatch

/-- The last one of three items is removed, and a text and an integer are left as they were. -/
theorem eval_unset_item_mixed : ∃ (s s' : Session Store Recorder) (object updated : Object),
    Command.evalTargets evalArgument (.literalPath "/P/a") s = .ok ["/Physical/a"] s ∧
    Command.evalInt evalArgument (.literal (.int 2)) "index" s = .ok 2 s ∧
    s.hierarchy.objects.get? "/Physical/a" = some object ∧
    heldAt? object "v" = some (.arr [.str "x", .int 2, .bool true]) ∧
    eval (.unsetAttribute (.literalPath "/P/a") "v" (some (.literal (.int 2)))) s = .ok .null s' ∧
    s'.hierarchy.objects.get? "/Physical/a" = some updated ∧
    heldAt? updated "v" = some (.arr [.str "x", .int 2]) := by
  let object : Object := Dict.ofList [("attributes", .obj [("v", .arr [.str "x", .int 2, .bool true])])]
  obtain ⟨s, hs⟩ : ∃ s : Session Store Recorder,
    s = { hierarchy := Store.empty.insert "/Physical/a" object, viewer := {} } := ⟨_, rfl⟩
  have htarget : Command.evalTargets evalArgument (.literalPath "/P/a") s = .ok ["/Physical/a"] s := by
    rw [hs]
    rfl
  have hindex : Command.evalInt evalArgument (.literal (.int 2)) "index" s = .ok 2 s := by rfl
  have hstored : s.hierarchy.objects.get? "/Physical/a" = some object := by
    rw [hs]
    rfl
  have hheld : heldAt? object "v" = some (.arr [.str "x", .int 2, .bool true]) := by rfl
  obtain ⟨s', updated, left, heval, hafter, hleft, -, hsame, -⟩ :=
    (eval_unset_item htarget hindex hstored hheld).1 (by decide)
  rw [hsame.2 (by decide)] at hleft
  exact ⟨s, s', object, updated, htarget, hindex, hstored, hheld, heval, hafter, hleft⟩

/-- The integers in an array of numbers become floats when one of them is removed. -/
theorem unset_item_changes_integers : ∃ (node : Node) (s s' : Session Store Recorder) (object updated : Object),
    Language.parse "unset /P/a:v[0]" = .ok node ∧ eval node s = .ok .null s' ∧
    s.hierarchy.objects.get? "/Physical/a" = some object ∧
    heldAt? object "v" = some (.arr [.int 1, .int 2, .int 3]) ∧
    s'.hierarchy.objects.get? "/Physical/a" = some updated ∧
    heldAt? updated "v" = some (.arr [.float 2, .float 3]) := by
  refine ⟨.unsetAttribute (.literalPath "/P/a") "v" (some (.literal (.int 0))),
    { hierarchy := Store.empty.insert "/Physical/a"
        (Dict.ofList [("attributes", .obj [("v", .arr [.int 1, .int 2, .int 3])])]), viewer := {} },
    { hierarchy := Store.empty.insert "/Physical/a"
        (Dict.ofList [("attributes", .obj [("v", .arr [.float 2, .float 3])])]), viewer := {} },
    Dict.ofList [("attributes", .obj [("v", .arr [.int 1, .int 2, .int 3])])],
    Dict.ofList [("attributes", .obj [("v", .arr [.float 2, .float 3])])], ?_, ?_, ?_, ?_, ?_, ?_⟩ <;> rfl

end Session

end TwinShell
