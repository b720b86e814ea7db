import TwinShell.Proofs.Hierarchy.Listing
import TwinShell.Proofs.Session.Modifying

/-!
# Setting a domain for everything below

A domain can be set for an object and for everything below it at once. What is below gets it first, one object after the other, and only then the target itself. A namespace has objects below it but is no object: setting its domain fails in the end, when the objects below have theirs already. Among the tags the command is refused before it begins.
-/

namespace TwinShell

namespace Store

def inDomain (domain : String) (object : Object) : Object := object.insert "domain" (.str domain)

/-- The objects at some paths were put into a domain, and nothing else has changed. -/
def SetsDomain (domain : String) (covers : String → Bool) (before after : Store) : Prop :=
  ∀ key, after.objects.get? key =
    if covers key then (before.objects.get? key).map (inDomain domain) else before.objects.get? key

variable {domain : String} {covers covers' : String → Bool} {before between after : Store}

namespace SetsDomain

theorem contains_iff (h : SetsDomain domain covers before after) {key : String} :
    after.objects.contains key ↔ before.objects.contains key := by
  rw [Dict.contains, Dict.contains, h]
  split
  · rw [Option.isSome_map]
  · rfl

theorem insert {store : Store} {key : String} {object : Object} (hstored : store.objects.get? key = some object) :
    SetsDomain domain (· == key) store ⟨store.objects.insert key (inDomain domain object)⟩ := by
  intro other
  rw [Dict.get?_insert]
  by_cases hother : other = key
  · rw [if_pos hother, if_pos (beq_iff_eq.2 hother), hother, hstored, Option.map_some]
  · rw [if_neg hother, if_neg (mt beq_iff_eq.1 hother)]

/-- An object may be covered twice. -/
theorem trans (h : SetsDomain domain covers before between) (h' : SetsDomain domain covers' between after) :
    SetsDomain domain (fun key => covers key || covers' key) before after := by
  have htwice : inDomain domain ∘ inDomain domain = inDomain domain := by
    funext object
    exact Dict.insert_insert_self object "domain" (.str domain)
  intro key
  show _ = if (covers key || covers' key) = true then _ else _
  rw [h', h]
  cases covers key with
  | false => rw [Bool.false_or, if_neg Bool.false_ne_true]
  | true =>
    simp only [Bool.true_or, if_true]
    split
    · rw [Option.map_map, htwice]
    · rfl

/-- Which paths are covered only matters where there are objects. -/
theorem congr (h : SetsDomain domain covers before after)
    (hcovers : ∀ key, before.objects.contains key → covers key = covers' key) :
    SetsDomain domain covers' before after := by
  intro key
  rw [h]
  cases hstored : before.objects.get? key with
  | none => simp only [Option.map_none, ite_self]
  | some object => rw [hcovers key (Dict.contains_iff.2 ⟨object, hstored⟩)]

/-- Nothing has changed only if the objects were in the domain before. -/
theorem eq_iff (h : SetsDomain domain covers before after) : after = before ↔
    ∀ key object, before.objects.get? key = some object → covers key → object.get? "domain" = some (.str domain) := by
  constructor
  · rintro rfl key object hstored hkey
    have hsame := h key
    rw [if_pos hkey, hstored, Option.map_some] at hsame
    exact Dict.insert_eq_self_iff.1 (Option.some.inj hsame).symm
  · intro hall
    have hobjects : after.objects = before.objects := by
      refine Dict.ext_get? fun key object => ?_
      rw [h]
      split
      · rename_i hkey
        cases hstored : before.objects.get? key with
        | none => rfl
        | some old => rw [Option.map_some, inDomain, Dict.insert_eq_self_iff.2 (hall key old hstored hkey)]
      · rfl
    cases after
    cases before
    cases hobjects
    rfl

end SetsDomain

end Store

namespace Command

open Store (SetsDomain)

variable {ν : Type} {s : Session Store ν} {target domain : String}

theorem updateObject_setsDomain (hstored : s.hierarchy.objects.contains target) (domain : String) :
    ∃ object store, onHierarchy (Hierarchy.updateObject target (patchOf "domain" (.str domain))) s =
      .ok object { s with hierarchy := store } ∧ SetsDomain domain (· == target) s.hierarchy store := by
  obtain ⟨object, hobject⟩ := Dict.contains_iff.1 hstored
  exact ⟨_, _, updateObject_eq_ok hobject _, .insert hobject⟩

/-- Objects are put into a domain one after the other. -/
theorem forM_setsDomain (domain : String) {entries : List (String × Object)}
    (hstored : ∀ key ∈ entries.map Prod.fst, s.hierarchy.objects.contains key) : ∃ store,
    (entries.forM fun (child, _) => do
      let _ ← onHierarchy (Hierarchy.updateObject child (patchOf "domain" (.str domain)))) s =
        .ok () { s with hierarchy := store } ∧
      SetsDomain domain (entries.map Prod.fst).contains s.hierarchy store := by
  induction entries generalizing s with
  | nil => exact ⟨s.hierarchy, rfl, fun key => rfl⟩
  | cons entry rest ih =>
    obtain ⟨hentry, hrest⟩ := List.forall_mem_cons.1 hstored
    obtain ⟨object, store, hupdate, hsets⟩ := updateObject_setsDomain hentry domain
    obtain ⟨store', hthen, hsetsthen⟩ := ih (s := { s with hierarchy := store }) fun key hkey =>
      hsets.contains_iff.2 (hrest key hkey)
    refine ⟨store', ?_, (hsets.trans hsetsthen).congr fun key _ => ?_⟩
    · have hone : (do let _ ← onHierarchy (Hierarchy.updateObject entry.1 (patchOf "domain" (.str domain))) :
          Command Store ν Unit) s = .ok () { s with hierarchy := store } := bind_of_ok hupdate
      exact (bind_of_ok hone).trans hthen
    · rw [List.map_cons, List.contains_cons]

/-- Everything strictly below a path that exists is put into the domain. -/
theorem setDomainBelow_eq_ok (htarget : s.hierarchy.Exists target) (domain : String) : ∃ store,
    setDomainBelow target (.str domain) s = .ok () { s with hierarchy := store } ∧
      SetsDomain domain (fun key => Path.isUnder key target && key != target) s.hierarchy store := by
  obtain ⟨entries, hentries, hkeys⟩ := Store.getChildren_eq_ok htarget true
  have hchildren : onHierarchy (Hierarchy.getChildren target { recursive := true }) s = .ok entries s :=
    looking_eq_ok hentries
  have hstored : ∀ key ∈ entries.map Prod.fst, s.hierarchy.objects.contains key := by
    intro key hkey
    rw [hkeys] at hkey
    exact Dict.mem_keys.1 (List.mem_filter.1 hkey).1
  obtain ⟨store, heach, hsets⟩ := forM_setsDomain domain hstored
  refine ⟨store, ?_, hsets.congr fun key hkey => ?_⟩
  · rw [setDomainBelow, bind_of_ok hchildren]
    exact heach
  · rw [hkeys, Bool.eq_iff_iff, List.contains_iff_mem, List.mem_filter, Dict.mem_keys, Store.isChild_iff]
    simp [hkey]

variable [Viewer ν]

theorem updatePatch_domain {values : List Value} (htags : Path.isUnder target Path.tags = false)
    (harguments : domainArguments values = .ok (domain, true)) (sharp : Bool) :
    updatePatch target "domain" values sharp s =
      (do setDomainBelow target (.str domain); return some (patchOf "domain" (.str domain))) s := by
  have hsettle : settle (domainArguments values) s = .ok (domain, true) s := by
    rw [harguments]
    rfl
  unfold updatePatch
  rw [htags]
  exact bind_of_ok hsettle

/-- A domain is not an attribute of a tag. -/
theorem updatePatch_domain_of_tag (values : List Value) (htags : Path.isUnder target Path.tags) (sharp : Bool) :
    updatePatch target "domain" values sharp s = .error (.failed (.type .tagAttribute)) s := by
  unfold updatePatch
  rw [htags]
  exact bind_of_error rfl

/-- The patch of the target comes after everything below it has changed. -/
theorem updatePatch_domain_eq_ok {values : List Value} (htags : Path.isUnder target Path.tags = false)
    (harguments : domainArguments values = .ok (domain, true)) (htarget : s.hierarchy.Exists target)
    (sharp : Bool) : ∃ store, updatePatch target "domain" values sharp s =
      .ok (some (patchOf "domain" (.str domain))) { s with hierarchy := store } ∧
      SetsDomain domain (fun key => Path.isUnder key target && key != target) s.hierarchy store := by
  obtain ⟨store, hbelow, hsets⟩ := setDomainBelow_eq_ok htarget domain
  refine ⟨store, ?_, hsets⟩
  rw [updatePatch_domain htags harguments, bind_of_ok hbelow]
  rfl

theorem updateOne_domain_eq_ok {values : List Value} (htags : Path.isUnder target Path.tags = false)
    (harguments : domainArguments values = .ok (domain, true))
    (hstored : s.hierarchy.objects.contains target) (sharp : Bool) : ∃ value s',
    updateOne "domain" values sharp target s = .ok (some value) s' ∧
      SetsDomain domain (Path.isUnder · target) s.hierarchy s'.hierarchy := by
  obtain ⟨store, hpatch, hsets⟩ := updatePatch_domain_eq_ok htags harguments (.inr hstored) sharp
  obtain ⟨object, hobject⟩ := Dict.contains_iff.1 (hsets.contains_iff.2 hstored)
  obtain ⟨viewer, hrest⟩ := patchStored_eq (s := { s with hierarchy := store }) hobject
    (patchOf "domain" (.str domain)) fun object => pure (some (Value.object (object.erase "children")))
  refine ⟨_, _, (bind_of_ok hpatch).trans hrest, (hsets.trans (.insert hobject)).congr fun key _ => ?_⟩
  show (Path.isUnder key target && key != target || key == target) = Path.isUnder key target
  by_cases hkey : key = target
  · rw [hkey, beq_self_eq_true, Bool.or_true, Path.isUnder_refl]
  · rw [beq_false_of_ne hkey, bne_iff_ne.2 hkey, Bool.and_true, Bool.or_false]

/-- A namespace cannot be patched, and what is below it has changed by then. -/
theorem updateOne_domain_eq_error {values : List Value} (htags : Path.isUnder target Path.tags = false)
    (harguments : domainArguments values = .ok (domain, true)) (htarget : s.hierarchy.Exists target)
    (hstored : ¬s.hierarchy.objects.contains target) (sharp : Bool) : ∃ store,
    updateOne "domain" values sharp target s =
      .error (.failed (.hierarchy (.notFound target))) { s with hierarchy := store } ∧
      SetsDomain domain (Path.isUnder · target) s.hierarchy store := by
  obtain ⟨store, hpatch, hsets⟩ := updatePatch_domain_eq_ok htags harguments htarget sharp
  have hnone : store.objects.get? target = none :=
    Option.not_isSome_iff_eq_none.1 (mt hsets.contains_iff.1 hstored)
  have hfail : onHierarchy (Hierarchy.updateObject target (patchOf "domain" (.str domain)))
      { s with hierarchy := store } = .error (.failed (.hierarchy (.notFound target)))
        { s with hierarchy := store } := changing_eq_error (by rw [Store.updateObject, hnone])
  refine ⟨store, (bind_of_ok hpatch).trans (bind_of_error hfail), hsets.congr fun key hkey => ?_⟩
  have hne : key ≠ target := fun heq => hstored (heq ▸ hkey)
  simp [hne]

end Command

namespace Session

open Store (SetsDomain)

variable {ν : Type} [Viewer ν] {s s₁ s₂ : Session Store ν} {path : Node} {nodes : List Node} {values : List Value}
  {target domain : String}

/-- Either the objects at or below a path are put into the domain, or nothing changes. -/
def SetsDomainOrNothing (domain target : String) (s : Session Store ν) :
    EStateM.Result Stop (Session Store ν) Value → Prop
  | .ok _ s' => SetsDomain domain (Path.isUnder · target) s.hierarchy s'.hierarchy
  | .error _ s' => s'.hierarchy = s.hierarchy

section One

variable {key : String} {sharp : Bool} (hvalues : Command.evalAll evalArgument nodes s = .ok values s₁)
  (htarget : Command.updateTargets evalArgument path s₁ = .ok [target] s₂)
include hvalues htarget

theorem eval_update_of_ok {value : Value} {s' : Session Store ν}
    (h : Command.updateOne key values sharp target s₂ = .ok (some value) s') :
    eval (.update path key nodes sharp) s = .ok value s' := by
  have heach : Command.updateEach key values sharp [target] s₂ = .ok [value] s' := Command.bind_of_ok h
  rw [eval_eq_step]
  refine (Command.bind_of_ok hvalues).trans ((Command.bind_of_ok htarget).trans ?_)
  rw [Command.bind_of_ok heach]
  rfl

theorem eval_update_of_error {stop : Stop} {s' : Session Store ν}
    (h : Command.updateOne key values sharp target s₂ = .error stop s') :
    eval (.update path key nodes sharp) s = .error stop s' := by
  have heach : Command.updateEach key values sharp [target] s₂ = .error stop s' := Command.bind_of_error h
  rw [eval_eq_step]
  refine (Command.bind_of_ok hvalues).trans ((Command.bind_of_ok htarget).trans ?_)
  rw [Command.bind_of_error heach]

end One

/-- Setting a domain for a path and everything below it succeeds exactly for objects that are no tags. It is all or nothing among the tags, for any other object, and for a namespace only if all objects below it are in the domain already. -/
theorem eval_update_domain_below (sharp : Bool)
    (hvalues : Command.evalAll evalArgument nodes s = .ok values s₁)
    (harguments : domainArguments values = .ok (domain, true))
    (htarget : Command.updateTargets evalArgument path s₁ = .ok [target] s₂)
    (hexists : s₂.hierarchy.Exists target) :
    ((∃ value s', eval (.update path "domain" nodes sharp) s = .ok value s') ↔
      s₂.hierarchy.objects.contains target ∧ ¬Path.isUnder target Path.tags) ∧
    (SetsDomainOrNothing domain target s₂ (eval (.update path "domain" nodes sharp) s) ↔
      Path.isUnder target Path.tags ∨ s₂.hierarchy.objects.contains target ∨
        ∀ key object, s₂.hierarchy.objects.get? key = some object → Path.isUnder key target →
          object.get? "domain" = some (.str domain)) := by
  have hstop : ∀ {stop : Stop} {s' : Session Store ν},
      ¬∃ value s'', (.error stop s' : EStateM.Result Stop (Session Store ν) Value) = .ok value s'' := nofun
  by_cases htags : Path.isUnder target Path.tags
  · have hone : Command.updateOne "domain" values sharp target s₂ = .error (.failed (.type .tagAttribute)) s₂ :=
      Command.bind_of_error (Command.updatePatch_domain_of_tag values htags sharp)
    rw [eval_update_of_error hvalues htarget hone]
    exact ⟨iff_of_false hstop fun h => h.2 htags, iff_of_true rfl (.inl htags)⟩
  have hnotag : Path.isUnder target Path.tags = false := Bool.eq_false_iff.2 htags
  by_cases hstored : s₂.hierarchy.objects.contains target
  · obtain ⟨value, s', hone, hsets⟩ := Command.updateOne_domain_eq_ok hnotag harguments hstored sharp
    rw [eval_update_of_ok hvalues htarget hone]
    exact ⟨iff_of_true ⟨value, s', rfl⟩ ⟨hstored, htags⟩, iff_of_true hsets (.inr (.inl hstored))⟩
  · obtain ⟨store, hone, hsets⟩ := Command.updateOne_domain_eq_error hnotag harguments hexists hstored sharp
    rw [eval_update_of_error hvalues htarget hone]
    refine ⟨iff_of_false hstop fun h => hstored h.1, ?_⟩
    rw [or_iff_right htags, or_iff_right hstored]
    exact hsets.eq_iff

/-- A room is put into a domain with what is in it; a rack that already is in the domain stays as it is. -/
theorem eval_update_domain_below_room : ∃ (s s' : Session Store Recorder) (value : Value),
    Command.evalAll evalArgument [.text "d", .literal (.bool true)] s = .ok [.str "d", .bool true] s ∧
    domainArguments [.str "d", .bool true] = .ok ("d", true) ∧
    Command.updateTargets evalArgument (.literalPath "/P/r") s = .ok ["/Physical/r"] s ∧
    s.hierarchy.Exists "/Physical/r" ∧
    eval (.update (.literalPath "/P/r") "domain" [.text "d", .literal (.bool true)] false) s = .ok value s' ∧
    SetsDomain "d" (Path.isUnder · "/Physical/r") s.hierarchy s'.hierarchy ∧
    s'.hierarchy.objects.get? "/Physical/r/a" = some (Store.inDomain "d" .empty) := by
  obtain ⟨s, hs⟩ : ∃ s : Session Store Recorder, s = {
      hierarchy := ((Store.empty.insert "/Physical/r" .empty).insert "/Physical/r/a" .empty).insert
        "/Physical/r/b" (Store.inDomain "d" .empty), viewer := {} } := ⟨_, rfl⟩
  have hvalues : Command.evalAll evalArgument [.text "d", .literal (.bool true)] s =
      .ok [.str "d", .bool true] s := by rfl
  have htarget : Command.updateTargets evalArgument (.literalPath "/P/r") s = .ok ["/Physical/r"] s := by
    rw [hs]
    rfl
  have hstored : s.hierarchy.objects.contains "/Physical/r" := by rw [hs]; decide
  have harguments : domainArguments [.str "d", .bool true] = .ok ("d", true) := rfl
  have hdomain := eval_update_domain_below false hvalues harguments htarget (.inr hstored)
  obtain ⟨value, s', heval⟩ := hdomain.1.2 ⟨hstored, by decide⟩
  have hsets := hdomain.2.2 (.inr (.inl hstored))
  rw [heval] at hsets
  refine ⟨s, s', value, hvalues, harguments, htarget, .inr hstored, heval, hsets, ?_⟩
  rw [hsets "/Physical/r/a", hs]
  rfl

/-- The domain of a site is set, and then setting the domain of the physical namespace fails. -/
theorem update_domain_below_changes_and_fails : ∃ (node : Node) (s s' : Session Store Recorder),
    Language.parse "/P:domain=d@true" = .ok node ∧
    s.hierarchy.objects.get? "/Physical/a" = some .empty ∧
    eval node s = .error (.failed (.hierarchy (.notFound "/Physical"))) s' ∧
    s'.hierarchy.objects.get? "/Physical/a" = some (Store.inDomain "d" .empty) := by
  obtain ⟨s, hs⟩ : ∃ s : Session Store Recorder,
    s = { hierarchy := Store.empty.insert "/Physical/a" .empty, viewer := {} } := ⟨_, rfl⟩
  have hvalues : Command.evalAll evalArgument [.text "d", .literal (.bool true)] s =
      .ok [.str "d", .bool true] s := by rfl
  have htarget : Command.updateTargets evalArgument (.literalPath "/P") s = .ok ["/Physical"] s := by
    rw [hs]
    rfl
  have hstored : ¬s.hierarchy.objects.contains "/Physical" := by rw [hs]; decide
  have harguments : domainArguments [.str "d", .bool true] = .ok ("d", true) := rfl
  obtain ⟨store, hone, hsets⟩ :=
    Command.updateOne_domain_eq_error (by decide) harguments (.inl (by decide)) hstored false
  have hobject : s.hierarchy.objects.get? "/Physical/a" = some .empty := by rw [hs]; rfl
  refine ⟨.update (.literalPath "/P") "domain" [.text "d", .literal (.bool true)] false, s, _, rfl, hobject,
    eval_update_of_error hvalues htarget hone, ?_⟩
  rw [hsets "/Physical/a", hobject]
  rfl

end Session

end TwinShell
