import Mathlib.Data.List.Nodup
import TwinShell.Hierarchy.Api
import TwinShell.Proofs.Hierarchy.Renaming

/-!
# Listings from a service and from memory

A service answers with a nested document: an object whose field `children` holds the documents of its direct children. Its client walks down the document and joins the names to paths, while a store goes through its sorted paths and picks those below the given one. Both list the same objects. Every object strictly below a path lies at or below exactly one of its direct children, because all paths in between exist, and so the walk meets each object once.
-/

namespace TwinShell

namespace Store

variable {s : Store} {path : String}

/-- A store that can be told as nested documents: its paths are in canonical form, every object hangs on a namespace or on another object and carries its last segment as its name, and the field `children` is free. -/
structure Nestable (s : Store) : Prop where
  canonical : ∀ key, s.objects.contains key → Path.Canonical key
  closed : s.Closed
  named : ∀ key object, s.objects.get? key = some object →
    (object.get? "name").bind Json.text? = some (Path.baseName key)
  free : ∀ key object, s.objects.get? key = some object → ¬object.contains "children"

/-- The paths of the direct children. -/
def childKeys (s : Store) (path : String) : List String :=
  s.objects.keys.filter fun key => Path.parent key = path

/-- A document that encodes the object at a path together with its direct children, in any order, and with everything below if it goes deep. -/
inductive Encodes (s : Store) (deep : Bool) : String → Object → Prop where
  | intro {path : String} {document : Object} (children : List (String × Object))
      (here : s.objects.get? path = some (document.erase "children"))
      (nested : document.get? "children" = some (.arr (children.map fun child => Json.ofObject child.2)))
      (keys : (children.map Prod.fst).Perm (s.childKeys path))
      (direct : ∀ child ∈ children, s.objects.get? child.1 = some (child.2.erase "children"))
      (below : deep → ∀ child ∈ children, s.Encodes deep child.1 child.2) :
      s.Encodes deep path document

/-! ### Direct children -/

theorem mem_childKeys {key : String} :
    key ∈ s.childKeys path ↔ s.objects.contains key ∧ Path.parent key = path := by
  rw [childKeys, List.mem_filter, Dict.mem_keys, decide_eq_true_iff]

theorem nodup_childKeys (s : Store) (path : String) : (s.childKeys path).Nodup :=
  s.objects.nodup_keys.filter _

theorem isUnder_of_mem_childKeys {key : String} (hpath : ¬Path.isNamespace path)
    (h : key ∈ s.childKeys path) : Path.isUnder key path ∧ key ≠ path := by
  obtain ⟨-, rfl⟩ := mem_childKeys.1 h
  constructor
  · refine (Path.isUnder_self_parent key).resolve_left fun hroot => hpath ?_
    rw [hroot]
    decide
  · intro heq
    rw [← heq, Path.eq_root_of_parent_eq heq.symm] at hpath
    exact hpath (by decide)

theorem not_isNamespace_of_mem_childKeys {key : String} (hpath : ¬Path.isNamespace path)
    (h : key ∈ s.childKeys path) : ¬Path.isNamespace key := fun hkey =>
  hpath ((mem_childKeys.1 h).2 ▸ Path.isNamespace_parent hkey)

/-- What lies strictly below a path that is no namespace lies at or below one of its direct children. -/
theorem Closed.exists_childKey (hs : s.Closed) (hpath : ¬Path.isNamespace path) (hne : path ≠ "")
    {key : String} (hkey : s.objects.contains key) (hunder : Path.isUnder key path)
    (hkeyne : key ≠ path) : ∃ child ∈ s.childKeys path, Path.isUnder key child := by
  -- The induction goes up from the key to its parent until that is the path.
  generalize hn : key.toList.length = n
  induction n using Nat.strongRecOn generalizing key with
  | ind n ih =>
    by_cases hparent : Path.parent key = path
    · exact ⟨key, mem_childKeys.2 ⟨hkey, hparent⟩, Path.isUnder_refl key⟩
    · have habove := Path.isUnder_parent hne hunder hkeyne
      have hnamespace : ¬Path.isNamespace (Path.parent key) := fun h =>
        hpath (Path.isNamespace_of_isUnder hne habove h)
      have hself : Path.isUnder key (Path.parent key) :=
        (Path.isUnder_self_parent key).resolve_left fun hroot => hnamespace (hroot ▸ by decide)
      have hkeyparent : key ≠ Path.parent key := fun heq =>
        hnamespace (Path.eq_root_of_parent_eq heq.symm ▸ by decide)
      have hstored := (parentExists_iff.1 (hs key hkey)).resolve_left hnamespace
      obtain ⟨child, hchild, hbelow⟩ :=
        ih _ (hn ▸ Path.length_lt_of_isUnder hself hkeyparent) hstored habove hparent rfl
      exact ⟨child, hchild, Path.isUnder_trans hself hbelow⟩

theorem ne_root_of_mem_childKeys (hpath : ¬Path.isNamespace path) {key : String}
    (h : key ∈ s.childKeys path) : key ≠ "/" := by
  rintro rfl
  exact not_isNamespace_of_mem_childKeys hpath h (by decide)

/-- At most one direct child lies above another path. -/
theorem eq_of_isUnder_of_mem_childKeys (hcanonical : ∀ key, s.objects.contains key → Path.Canonical key)
    (hpath : ¬Path.isNamespace path) {a b key : String} (ha : a ∈ s.childKeys path) (hb : b ∈ s.childKeys path)
    (hka : Path.isUnder key a) (hkb : Path.isUnder key b) : a = b := by
  obtain ⟨hacontains, haparent⟩ := mem_childKeys.1 ha
  obtain ⟨hbcontains, hbparent⟩ := mem_childKeys.1 hb
  refine (hcanonical a hacontains).eq_of_isUnder (hcanonical b hbcontains) ?_
    (haparent.trans hbparent.symm) hka hkb
  rintro hroot
  rw [← haparent, hroot] at hpath
  exact hpath (by decide)

/-- A path is read back from its parent and the name that its object carries. -/
theorem Nestable.join_name (hs : s.Nestable) (hpath : ¬Path.isNamespace path) {key : String}
    (h : key ∈ s.childKeys path) : Path.join path (Path.baseName key) = key := by
  obtain ⟨hcontains, hparent⟩ := mem_childKeys.1 h
  have hroot := ne_root_of_mem_childKeys hpath h
  obtain ⟨segs, segment, rfl, hsegs, hsegment⟩ := (hs.canonical key hcontains).eq_child hroot
  rw [← hparent, Path.parent_ofSegments segs hsegment.no_slash,
    Path.baseName_ofSegments segs hsegment.no_slash fun t ht => (hsegs t ht).no_slash,
    Path.join_child hsegs hsegment.no_slash hsegment.ne_empty]

/-- Every stored path has a document. -/
theorem Nestable.exists_encodes (hs : s.Nestable) (deep : Bool) {object : Object}
    (hpath : ¬Path.isNamespace path) (hobject : s.objects.get? path = some object) :
    ∃ document, s.Encodes deep path document := by
  -- The induction is on how much longer the longest path of the store is.
  obtain ⟨bound, hbound⟩ : ∃ bound, ∀ key ∈ s.objects.keys, key.toList.length ≤ bound :=
    ⟨((s.objects.keys.map fun key => key.toList.length).max?).getD 0, fun key hkey =>
      List.le_max?_getD_of_mem (List.mem_map_of_mem hkey)⟩
  generalize hn : bound - path.toList.length = n
  induction n using Nat.strongRecOn generalizing path object with
  | ind n ih =>
    have hchild : ∀ key ∈ s.childKeys path, ∃ document : Object,
        s.objects.get? key = some (document.erase "children") ∧
        (deep → s.Encodes deep key document) := by
      intro key hkey
      obtain ⟨hcontains, -⟩ := mem_childKeys.1 hkey
      obtain ⟨hunder, hne⟩ := isUnder_of_mem_childKeys hpath hkey
      obtain ⟨child, hget⟩ := Dict.contains_iff.1 hcontains
      have hlt := Path.length_lt_of_isUnder hunder hne
      have hle := hbound key (Dict.mem_keys.2 hcontains)
      obtain ⟨document, hdocument⟩ := ih (bound - key.toList.length) (by omega)
        (not_isNamespace_of_mem_childKeys hpath hkey) hget rfl
      refine ⟨document, ?_, fun _ => hdocument⟩
      obtain ⟨-, here, -, -, -, -⟩ := hdocument
      exact here
    choose! document hget hdocument using hchild
    let children := (s.childKeys path).map fun key => (key, document key)
    refine ⟨object.insert "children" (.arr (children.map fun child => Json.ofObject child.2)),
      .intro children ?_ ?_ ?_ ?_ ?_⟩
    · have hfree := hs.free path object hobject
      rw [Dict.erase_insert_of_get?_eq_none (Option.not_isSome_iff_eq_none.1 hfree), hobject]
    · rw [Dict.get?_insert, if_pos rfl]
    · rw [List.map_map]
      simp [Function.comp_def]
    · intro child hmem
      obtain ⟨key, hkey, rfl⟩ := List.mem_map.1 hmem
      exact hget key hkey
    · intro hdeep child hmem
      obtain ⟨key, hkey, rfl⟩ := List.mem_map.1 hmem
      exact hdocument key hkey hdeep

end Store

/-! ### The walk down a document -/

namespace ApiClient

variable {filter : Filter} {parent : String}

theorem nestedIn_eq (fields : List (String × Json)) : nestedIn filter parent fields =
    ((Assoc.find? "children" fields).map (nestedInArray filter parent)).getD [] := by
  induction fields with
  | nil => rfl
  | cons field rest ih =>
    obtain ⟨key, value⟩ := field
    rw [nestedIn, nestedInField, Assoc.find?]
    by_cases hkey : key = "children"
    · simp [hkey]
    · simp [hkey, ih]

theorem nestedInItems_eq (items : List Json) :
    nestedInItems filter parent items = items.flatMap (nestedChild filter parent) := by
  induction items with
  | nil => rfl
  | cons item rest ih => rw [nestedInItems, ih, List.flatMap_cons]

theorem collectChildren_eq {document : Object} {items : List Json}
    (h : document.get? "children" = some (.arr items)) :
    collectChildren parent document filter = items.flatMap (nestedChild filter parent) := by
  have hfind : Assoc.find? "children" document.entries = some (.arr items) := h
  rw [collectChildren, nestedIn_eq, hfind, Option.map_some, Option.getD_some, nestedInArray,
    nestedInItems_eq]

theorem nestedChild_eq {document : Object} {name : String}
    (h : (document.get? "name").bind Json.text? = some name) :
    nestedChild filter parent (Json.ofObject document) =
      (if filter.recursive then collectChildren (Path.join parent name) document filter else []) ++
      if filter.accepts document then [(Path.join parent name, document.erase "children")] else [] := by
  have hfind : (Assoc.find? "name" document.entries).bind Json.text? = some name := h
  simp only [Json.ofObject, nestedChild, hfind, Dict.ofList_entries, collectChildren]

end ApiClient

theorem attributeText?_erase {object : Object} {key key' : String} (hkey : key' ≠ key)
    (hattributes : key ≠ "attributes") :
    attributeText? (object.erase key) key' = attributeText? object key' := by
  rw [attributeText?, attributeText?, Dict.get?_erase, if_neg hkey, Dict.get?_erase,
    if_neg (Ne.symm hattributes)]

/-- A filter that does not ask for the children passes an object with or without them. -/
theorem Filter.accepts_erase_children {filter : Filter}
    (hfilter : ∀ wanted ∈ filter.attributes, wanted.1 ≠ "children") (object : Object) :
    filter.accepts (object.erase "children") = filter.accepts object := by
  have hcategory : category? (object.erase "children") = category? object := by
    rw [category?, category?, Dict.get?_erase, if_neg (by decide)]
  rw [Filter.accepts, Filter.accepts, hcategory, Bool.eq_iff_iff]
  simp only [Bool.and_eq_true, List.all_eq_true]
  refine and_congr_right fun _ => forall₂_congr fun wanted hmem => ?_
  rw [attributeText?_erase (hfilter wanted hmem) (by decide)]

namespace Store

variable {s : Store} {path : String} {filter : Filter} {document : Object}

theorem isChild_iff {root key : String} {recursive : Bool} : isChild root recursive key ↔
    Path.isUnder key root ∧ key ≠ root ∧ (recursive ∨ Path.parent key = root) := by
  simp [isChild, and_assoc]

theorem getChildren_eq_filter (hpath : s.Exists path) (recursive : Bool) :
    s.getChildren path { recursive } = .ok (s.objects.entries.filter fun e => isChild path recursive e.1) := by
  have hfound : (!Path.isNamespace path && !s.objects.contains path) = false := by
    rw [← Bool.not_or, Bool.not_eq_false', Bool.or_eq_true]
    exact hpath
  rw [getChildren, hfound]
  exact congrArg Except.ok (List.filter_congr fun e _ => Bool.and_true _)

/-- Without a filter everything is listed, in the order of the paths. -/
theorem getChildren_eq_ok (hpath : s.Exists path) (recursive : Bool) :
    ∃ entries, s.getChildren path { recursive } = .ok entries ∧
      entries.map Prod.fst = s.objects.keys.filter (isChild path recursive) := by
  refine ⟨_, getChildren_eq_filter hpath recursive, ?_⟩
  rw [Dict.keys, List.filter_map]
  rfl

/-- What a child adds to a listing: what lies below it, and then itself. -/
def childListing (filter : Filter) (child : String × Object) : List (String × Object) :=
  (if filter.recursive then ApiClient.collectChildren child.1 child.2 filter else []) ++
    if filter.accepts (child.2.erase "children") then [(child.1, child.2.erase "children")] else []

theorem mem_childListing {child entry : String × Object} : entry ∈ childListing filter child ↔
    filter.recursive ∧ entry ∈ ApiClient.collectChildren child.1 child.2 filter ∨
    entry = (child.1, child.2.erase "children") ∧ filter.accepts entry.2 := by
  rw [childListing, List.mem_append]
  refine or_congr ?_ ?_
  · split <;> simp_all
  · split
    · rename_i haccepts
      rw [List.mem_singleton]
      exact ⟨fun h => ⟨h, h ▸ haccepts⟩, fun h => h.1⟩
    · rename_i haccepts
      refine ⟨nofun, ?_⟩
      rintro ⟨rfl, h⟩
      exact absurd h haccepts

theorem nodup_childListing {child : String × Object}
    (hbelow : filter.recursive →
      ((ApiClient.collectChildren child.1 child.2 filter).map Prod.fst).Nodup)
    (hself : filter.recursive →
      child.1 ∉ (ApiClient.collectChildren child.1 child.2 filter).map Prod.fst) :
    ((childListing filter child).map Prod.fst).Nodup := by
  rw [childListing, List.map_append, List.nodup_append']
  refine ⟨?_, ?_, ?_⟩
  · split
    · exact hbelow ‹_›
    · exact List.nodup_nil
  · split <;> simp
  · intro key hkey hkey'
    split at hkey
    · split at hkey'
      · obtain rfl := List.mem_singleton.1 hkey'
        exact hself ‹_› hkey
      · cases hkey'
    · cases hkey

section

variable (hs : s.Nestable) (hfilter : ∀ wanted ∈ filter.attributes, wanted.1 ≠ "children")
include hs hfilter

theorem collectChildren_eq_flatMap {children : List (String × Object)}
    (hpath : ¬Path.isNamespace path)
    (nested : document.get? "children" = some (.arr (children.map fun child => Json.ofObject child.2)))
    (keys : (children.map Prod.fst).Perm (s.childKeys path))
    (direct : ∀ child ∈ children, s.objects.get? child.1 = some (child.2.erase "children")) :
    ApiClient.collectChildren path document filter = children.flatMap (childListing filter) := by
  rw [ApiClient.collectChildren_eq nested, List.flatMap_map]
  refine List.flatMap_congr fun child hchild => ?_
  have hname := hs.named child.1 _ (direct child hchild)
  rw [Dict.get?_erase, if_neg (by decide)] at hname
  rw [ApiClient.nestedChild_eq hname, hs.join_name hpath (keys.mem_iff.1 (List.mem_map_of_mem hchild)),
    childListing, Filter.accepts_erase_children hfilter]

/-- The walk down the document of a path finds what the store has below the path. -/
theorem Encodes.mem_collectChildren (h : s.Encodes filter.recursive path document)
    (hpath : ¬Path.isNamespace path) (entry : String × Object) :
    entry ∈ ApiClient.collectChildren path document filter ↔
      s.objects.get? entry.1 = some entry.2 ∧ isChild path filter.recursive entry.1 ∧
        filter.accepts entry.2 := by
  induction h with
  | @intro path document children here nested keys direct below ih =>
    have hkeys : ∀ child ∈ children, child.1 ∈ s.childKeys path := fun child hchild =>
      keys.mem_iff.1 (List.mem_map_of_mem hchild)
    have hnamespace : ∀ child ∈ children, ¬Path.isNamespace child.1 := fun child hchild =>
      not_isNamespace_of_mem_childKeys hpath (hkeys child hchild)
    rw [collectChildren_eq_flatMap hs hfilter hpath nested keys direct, List.mem_flatMap]
    simp only [mem_childListing, isChild_iff]
    constructor
    · rintro ⟨child, hchild, ⟨hdeep, hmem⟩ | ⟨rfl, haccepts⟩⟩
      · rw [ih hdeep child hchild (hnamespace child hchild), isChild_iff] at hmem
        obtain ⟨hget, ⟨hunder, -, -⟩, haccepts⟩ := hmem
        obtain ⟨hchildunder, hchildne⟩ := isUnder_of_mem_childKeys hpath (hkeys child hchild)
        have hlt := Path.length_lt_of_isUnder hchildunder hchildne
        have hle := Path.length_le_of_isUnder hunder
        refine ⟨hget, ⟨Path.isUnder_trans hunder hchildunder, ?_, .inl hdeep⟩, haccepts⟩
        intro heq
        rw [heq] at hle
        omega
      · obtain ⟨hunder, hne⟩ := isUnder_of_mem_childKeys hpath (hkeys child hchild)
        exact ⟨direct child hchild, ⟨hunder, hne, .inr (mem_childKeys.1 (hkeys child hchild)).2⟩,
          haccepts⟩
    · rintro ⟨hget, ⟨hunder, hne, hdepth⟩, haccepts⟩
      have hcontains : s.objects.contains entry.1 := Dict.contains_iff.2 ⟨_, hget⟩
      have hpathne : path ≠ "" := (hs.canonical path (Dict.contains_iff.2 ⟨_, here⟩)).ne_empty
      obtain ⟨key, hkey, hbelow⟩ := hs.closed.exists_childKey hpath hpathne hcontains hunder hne
      obtain ⟨child, hchild, rfl⟩ := List.mem_map.1 (keys.mem_iff.2 hkey)
      refine ⟨child, hchild, ?_⟩
      by_cases heq : entry.1 = child.1
      · rw [heq, direct child hchild] at hget
        exact .inr ⟨Prod.ext heq (Option.some.inj hget).symm, haccepts⟩
      · have hdeep : filter.recursive := by
          refine hdepth.resolve_right fun hparent => heq ?_
          exact eq_of_isUnder_of_mem_childKeys hs.canonical hpath (mem_childKeys.2 ⟨hcontains, hparent⟩) hkey
            (Path.isUnder_refl _) hbelow
        refine .inl ⟨hdeep, (ih hdeep child hchild (hnamespace child hchild)).2 ⟨hget, ?_, haccepts⟩⟩
        exact isChild_iff.2 ⟨hbelow, heq, .inl hdeep⟩

/-- The walk meets no path twice. -/
theorem Encodes.nodup_collectChildren (h : s.Encodes filter.recursive path document)
    (hpath : ¬Path.isNamespace path) :
    ((ApiClient.collectChildren path document filter).map Prod.fst).Nodup := by
  induction h with
  | @intro path document children here nested keys direct below ih =>
    have hkeys : ∀ child ∈ children, child.1 ∈ s.childKeys path := fun child hchild =>
      keys.mem_iff.1 (List.mem_map_of_mem hchild)
    have hnamespace : ∀ child ∈ children, ¬Path.isNamespace child.1 := fun child hchild =>
      not_isNamespace_of_mem_childKeys hpath (hkeys child hchild)
    have hstrict : filter.recursive → ∀ child ∈ children, ∀ key,
        key ∈ (ApiClient.collectChildren child.1 child.2 filter).map Prod.fst →
        Path.isUnder key child.1 ∧ key ≠ child.1 := by
      intro hdeep child hchild key hkey
      obtain ⟨entry, hentry, rfl⟩ := List.mem_map.1 hkey
      rw [(below hdeep child hchild).mem_collectChildren hs hfilter (hnamespace child hchild),
        isChild_iff] at hentry
      exact ⟨hentry.2.1.1, hentry.2.1.2.1⟩
    have hunder : ∀ child ∈ children, ∀ key ∈ (childListing filter child).map Prod.fst,
        Path.isUnder key child.1 := by
      intro child hchild key hkey
      obtain ⟨entry, hentry, rfl⟩ := List.mem_map.1 hkey
      rcases mem_childListing.1 hentry with ⟨hdeep, hmem⟩ | ⟨rfl, -⟩
      · exact (hstrict hdeep child hchild _ (List.mem_map_of_mem hmem)).1
      · exact Path.isUnder_refl _
    rw [collectChildren_eq_flatMap hs hfilter hpath nested keys direct, List.map_flatMap,
      List.nodup_flatMap]
    constructor
    · intro child hchild
      exact nodup_childListing (fun hdeep => ih hdeep child hchild (hnamespace child hchild))
        fun hdeep hmem => (hstrict hdeep child hchild _ hmem).2 rfl
    · have hpairwise : (children.map Prod.fst).Nodup := keys.nodup_iff.2 (nodup_childKeys s path)
      refine (List.pairwise_map.1 hpairwise).imp_of_mem fun {a b} ha hb hne => ?_
      intro key hka hkb
      exact hne (eq_of_isUnder_of_mem_childKeys hs.canonical hpath (hkeys a ha) (hkeys b hb) (hunder a ha key hka)
        (hunder b hb key hkb))

end

/-- The listing that a client collects from the document of a path is the one that the store gives, up to the order, with each path once. -/
theorem collectChildren_perm_getChildren (hs : s.Nestable) (hpath : ¬Path.isNamespace path)
    (hstored : s.objects.contains path)
    (hfilter : ∀ wanted ∈ filter.attributes, wanted.1 ≠ "children") :
    (∃ document, s.Encodes filter.recursive path document) ∧
    ∀ document, s.Encodes filter.recursive path document →
      ∃ entries, s.getChildren path filter = .ok entries ∧
        (ApiClient.collectChildren path document filter).Perm entries ∧
        ((ApiClient.collectChildren path document filter).map Prod.fst).Nodup := by
  obtain ⟨object, hobject⟩ := Dict.contains_iff.1 hstored
  refine ⟨hs.exists_encodes filter.recursive hpath hobject, fun document hdocument => ?_⟩
  have hnodup := hdocument.nodup_collectChildren hs hfilter hpath
  refine ⟨_, if_neg (by simp [hstored]), ?_, hnodup⟩
  have hentries : s.objects.entries.Nodup := s.objects.nodup_keys.of_map
  rw [List.perm_ext_iff_of_nodup hnodup.of_map (hentries.filter _)]
  intro entry
  rw [hdocument.mem_collectChildren hs hfilter hpath, List.mem_filter, Dict.mem_entries,
    Bool.and_eq_true]

/-- A site with a building in which there is a room. -/
def housedRoom : Store where
  objects := Dict.ofList [
    ("/Physical/S", Dict.ofList [("category", .str "site"), ("name", .str "S")]),
    ("/Physical/S/B", Dict.ofList [("category", .str "building"), ("name", .str "B")]),
    ("/Physical/S/B/R", Dict.ofList [("category", .str "room"), ("name", .str "R")])]

theorem nestable_housedRoom : housedRoom.Nestable := by
  have hkeys : ∀ key ∈ housedRoom.objects.keys, Path.Canonical key := by decide +kernel
  have hentries : ∀ entry ∈ housedRoom.objects.entries,
      (entry.2.get? "name").bind Json.text? = some (Path.baseName entry.1) ∧
      ¬entry.2.contains "children" := by decide +kernel
  refine ⟨fun key hkey => hkeys key (Dict.mem_keys.2 hkey), by decide +kernel, ?_, ?_⟩
  · exact fun key object hget => (hentries (key, object) (Dict.mem_entries.2 hget)).1
  · exact fun key object hget => (hentries (key, object) (Dict.mem_entries.2 hget)).2

theorem collectChildren_perm_getChildren_site :
    ∃ document entries, housedRoom.Encodes true "/Physical/S" document ∧
      housedRoom.getChildren "/Physical/S" { category := some .room, recursive := true } = .ok entries ∧
      (ApiClient.collectChildren "/Physical/S" document
        { category := some .room, recursive := true }).Perm entries := by
  obtain ⟨⟨document, hdocument⟩, hall⟩ := @collectChildren_perm_getChildren housedRoom "/Physical/S"
    { category := some .room, recursive := true } nestable_housedRoom (by decide)
    (by decide +kernel) (by decide)
  obtain ⟨entries, hentries, hperm, -⟩ := hall document hdocument
  exact ⟨document, entries, hdocument, hentries, hperm⟩

end Store

end TwinShell
