import TwinShell.Proofs.Session.Domains
import TwinShell.Proofs.Session.Exit

/-!
# Tags, separators and pillars

An object is tagged with slugs, and among its attributes it may have two named maps, one of separators and one of pillars. Six updates change them, each by reading what is there, changing it and merging the result back into the object: two for the slugs and two for each map. What is there after any number of them is what their history says, of which only the last successful one about a slug or a name counts: the slug or the name is there if that one has added it, with the entry that it has added.

Two of the six are on fields of the same attributes, so the history has to say what each of them leaves alone, too. A patch replaces one whole map and nothing else; the attributes it is merged into are those the object has by then.
-/

namespace TwinShell

/-! ### Histories -/

/-- What a successful update has marked an object with: a slug among its tags, or a name in one of its named maps. An addition has an entry, a removal has none. -/
structure Mark where
  place : String
  name : String
  entry : Option Json

/-- The named maps among the attributes of an object. -/
def namedMaps : List String := ["separators", "pillars"]

/-- What the last one of some marks, most recent first, has left of a slug or a name. -/
def marked? (place name : String) (marks : List Mark) : Option Json :=
  (marks.find? fun m => m.place = place ∧ m.name = name).bind Mark.entry

variable {object start updated : Object} {marks : List Mark} {m : Mark} {key place name : String} {value : Json}

theorem marked?_cons (place name : String) (m : Mark) (marks : List Mark) :
    marked? place name (m :: marks) =
      if m.place = place ∧ m.name = name then m.entry else marked? place name marks := by
  unfold marked?
  rw [List.find?_cons]
  by_cases h : m.place = place ∧ m.name = name
  · rw [if_pos h, decide_eq_true h]
    rfl
  · rw [if_neg h, decide_eq_false h]

theorem marked?_cons_of_ne (h : m.place ≠ place) (name : String) (marks : List Mark) :
    marked? place name (m :: marks) = marked? place name marks := by
  rw [marked?_cons, if_neg fun hm => h hm.1]

theorem ne_tags_of_namedMap (h : place ∈ namedMaps) : place ≠ "tags" := by
  rintro rfl
  exact absurd h (by decide)

/-! ### Marked objects -/

def attributeOf? (object : Object) (name : String) : Option Json := (attributesOf? object).bind (·.get? name)

/-- The tags of an object are some slugs, in an order; without any it may have no field for them. -/
def HasTags (object : Object) (slugs : List String) : Prop :=
  object.get? "tags" = none ∧ slugs = [] ∨ object.get? "tags" = some (.arr (slugs.map .str))

/-- A named map of an object has some entries; without any the attribute may be missing. -/
def HasMap (object : Object) (place : String) (entries : Object) : Prop :=
  attributeOf? object place = none ∧ entries = .empty ∨ attributeOf? object place = some (Json.ofObject entries)

/-- An object is as it was at the start, but for its marks. -/
structure Marked (marks : List Mark) (start object : Object) : Prop where
  fields {field : String} (htags : field ≠ "tags") (hattributes : field ≠ "attributes") :
    object.get? field = start.get? field
  attributes {name : String} (h : name ∉ namedMaps) : attributeOf? object name = attributeOf? start name
  tags : ∃ slugs, HasTags object slugs ∧ slugs.Nodup ∧
    ∀ slug, slug ∈ slugs ↔ (marked? "tags" slug marks).isSome
  maps {place : String} (h : place ∈ namedMaps) : ∃ entries, HasMap object place entries ∧
    ∀ name, entries.get? name = marked? place name marks
  whole {json : Json} (h : object.get? "attributes" = some json) : json.isObject
  /-- Once there is a map, the attributes were written by an update. -/
  written {place : String} (h : place ∈ namedMaps) (hsome : attributeOf? object place ≠ none) :
    ∃ attributes, object.get? "attributes" = some (Json.ofObject attributes)

/-- An object without tags and named maps, whose attributes, if it has any, are an object. -/
structure Unmarked (object : Object) : Prop where
  tags : object.get? "tags" = none
  maps {place : String} (h : place ∈ namedMaps) : attributeOf? object place = none
  attributes {json : Json} (h : object.get? "attributes" = some json) : json.isObject

theorem Unmarked.marked (h : Unmarked start) : Marked [] start start where
  fields _ _ := rfl
  attributes _ := rfl
  tags := ⟨[], .inl ⟨h.tags, rfl⟩, .nil, fun slug => by simp [marked?]⟩
  maps hplace := ⟨.empty, .inl ⟨h.maps hplace, rfl⟩, fun name => rfl⟩
  whole := h.attributes
  written hplace hsome := absurd (h.maps hplace) hsome

theorem attributeOf?_congr (h : updated.get? "attributes" = object.get? "attributes") (name : String) :
    attributeOf? updated name = attributeOf? object name := by
  rw [attributeOf?, attributeOf?, attributesOf?_congr h]

theorem attributeOf?_of_written {attributes : Object}
    (h : object.get? "attributes" = some (Json.ofObject attributes)) (name : String) :
    attributeOf? object name = attributes.get? name := by
  rw [attributeOf?, attributesOf?_ofObject h, Option.bind_some]

/-- What a patch of one attribute leaves, also where there were no attributes before. -/
theorem IsMerge.writes_attribute (h : IsMerge object (attributePatch key value) updated)
    (hvalue : value.isNull = false) :
    ∃ attributes, updated.get? "attributes" = some (Json.ofObject attributes) ∧
      ∀ name, attributes.get? name = if name = key then some value else attributeOf? object name := by
  cases hattributes : attributesOf? object with
  | some attributes =>
    obtain ⟨merged, hmerged, hnames⟩ := h.attributes_of_attributePatch hattributes
    refine ⟨merged, hmerged, fun name => ?_⟩
    rw [hnames, hvalue, if_neg Bool.false_ne_true, attributeOf?, hattributes, Option.bind_some]
  | none =>
    have htaken := h.attributes_of_none hattributes (attributesOf?_attributePatch key value)
    refine ⟨patchOf key value, htaken, fun name => ?_⟩
    rw [get?_patchOf, attributeOf?, hattributes, Option.bind_none]

theorem field?_attributes_eq_none (h : attributeOf? object name = none) :
    (object.get? "attributes").bind (·.field? name) = none := by
  cases hjson : object.get? "attributes" with
  | none => rfl
  | some json =>
    cases json with
    | obj fields =>
      rw [attributeOf?, attributesOf?_eq_some_iff.2 ⟨fields, hjson, rfl⟩, Option.bind_some] at h
      have hkeys : name ∉ fields.map Prod.fst := fun hmem => by
        have hcontains := (Dict.contains_insertAll .empty fields name).2 (.inr hmem)
        rw [Dict.contains, show (Dict.empty.insertAll fields).get? name = none from h] at hcontains
        cases hcontains
      refine Assoc.find?_eq_none_iff.2 fun entry hentry heq => hkeys ?_
      exact heq ▸ List.mem_map_of_mem hentry
    | _ => rfl

namespace Marked

/-- Replacing the tags. -/
theorem tag {slugs : List String} (h : Marked marks start object) (hm : m.place = "tags")
    (hnodup : slugs.Nodup) (hslugs : ∀ slug, slug ∈ slugs ↔ (marked? "tags" slug (m :: marks)).isSome) :
    Marked (m :: marks) start (Store.applyPatch object (patchOf "tags" (.arr (slugs.map .str)))) := by
  have hmerge := isMerge_applyPatch object (patchOf "tags" (.arr (slugs.map .str)))
  have hkept : ∀ field, field ≠ "tags" → (Store.applyPatch object (patchOf "tags" (.arr (slugs.map .str)))).get?
      field = object.get? field := fun field hne =>
    hmerge.kept field (by rw [get?_patchOf, if_neg hne])
  have hattribute := attributeOf?_congr (hkept "attributes" (by decide))
  refine ⟨fun htags hattributes => ?_, fun hname => ?_, ⟨slugs, .inr ?_, hnodup, hslugs⟩, fun hplace => ?_,
    fun hjson => h.whole ((hkept "attributes" (by decide)).symm.trans hjson), ?_⟩
  · rw [hkept _ htags, h.fields htags hattributes]
  · rw [hattribute, h.attributes hname]
  · exact hmerge.replaced "tags" _ (by rw [get?_patchOf, if_pos rfl]) rfl nofun
  · obtain ⟨entries, hentries, hnames⟩ := h.maps hplace
    refine ⟨entries, ?_, fun name => ?_⟩
    · rw [HasMap, hattribute]
      exact hentries
    · rw [hnames, marked?_cons_of_ne]
      rw [hm]
      exact (ne_tags_of_namedMap hplace).symm
  · intro place hplace hsome
    rw [hattribute] at hsome
    obtain ⟨attributes, hwritten⟩ := h.written hplace hsome
    exact ⟨attributes, (hkept "attributes" (by decide)).trans hwritten⟩

/-- Replacing a named map. -/
theorem map {entries : Object} (h : Marked marks start object) (hplace : m.place ∈ namedMaps)
    (hentries : ∀ name, entries.get? name = marked? m.place name (m :: marks)) :
    Marked (m :: marks) start (Store.applyPatch object (attributePatch m.place (Json.ofObject entries))) := by
  have hmerge := isMerge_applyPatch object (attributePatch m.place (Json.ofObject entries))
  obtain ⟨attributes, hwritten, hnames⟩ := hmerge.writes_attribute rfl
  have hattribute := attributeOf?_of_written hwritten
  have hkept : ∀ field, field ≠ "attributes" → (Store.applyPatch object (attributePatch m.place
      (Json.ofObject entries))).get? field = object.get? field := fun field hne =>
    hmerge.kept field (by rw [attributePatch, get?_patchOf, if_neg hne])
  refine ⟨fun htags hattributes => ?_, fun hname => ?_, ?_, fun hother => ?_, fun hjson => ?_,
    fun _ _ => ⟨attributes, hwritten⟩⟩
  · rw [hkept _ hattributes, h.fields htags hattributes]
  · have hne := ne_of_mem_of_not_mem hplace hname
    rw [hattribute, hnames, if_neg hne.symm, h.attributes hname]
  · obtain ⟨slugs, hslugs, hnodup, hmem⟩ := h.tags
    refine ⟨slugs, ?_, hnodup, fun slug => ?_⟩
    · rw [HasTags, hkept "tags" (by decide)]
      exact hslugs
    · rw [hmem, marked?_cons_of_ne (ne_tags_of_namedMap hplace)]
  · rename_i other
    by_cases hsame : other = m.place
    · subst hsame
      refine ⟨entries, .inr ?_, hentries⟩
      rw [hattribute, hnames, if_pos rfl]
    · obtain ⟨others, hothers, hnamed⟩ := h.maps hother
      refine ⟨others, ?_, fun name => ?_⟩
      · rw [HasMap, hattribute, hnames, if_neg hsame]
        exact hothers
      · rw [hnamed, marked?_cons_of_ne (Ne.symm hsame)]
  · rw [hwritten] at hjson
    cases hjson
    rfl

/-- What an update reads of a named map. -/
theorem get?_namedMap (h : Marked marks start object) (hplace : place ∈ namedMaps) (name : String) :
    (namedMap object place).get? name = marked? place name marks := by
  obtain ⟨entries, hentries, hnames⟩ := h.maps hplace
  have hmap : namedMap object place = entries := by
    rcases hentries with ⟨hnone, rfl⟩ | hsome
    · rw [namedMap, field?_attributes_eq_none hnone]
    · obtain ⟨attributes, hwritten⟩ := h.written hplace (by rw [hsome]; exact Option.some_ne_none _)
      rw [attributeOf?_of_written hwritten] at hsome
      have hfield : (Json.ofObject attributes).field? place = some (Json.ofObject entries) := hsome
      rw [namedMap, hwritten, Option.bind_some, hfield]
      exact Dict.ofList_entries entries
  rw [hmap, hnames]

/-- An entry is stored under its name. -/
theorem field?_of_marked {entry : Json} (h : Marked marks start object) (hplace : place ∈ namedMaps)
    (hentry : marked? place name marks = some entry) :
    (attributeOf? object place).bind (·.field? name) = some entry := by
  obtain ⟨entries, hentries, hnames⟩ := h.maps hplace
  rw [← hnames] at hentry
  rcases hentries with ⟨-, rfl⟩ | hsome
  · cases hentry
  · rw [hsome]
    exact hentry

end Marked

/-! ### The six updates -/

/-- The updates of tags and named maps. -/
def markKeys : List String := ["tags+", "tags-", "separators+", "separators-", "pillars+", "pillars-"]

/-- The updates that remove something, with what they remove it from. -/
def removals : List (String × String) :=
  [("tags-", "tags"), ("separators-", "separators"), ("pillars-", "pillars")]

/-- The document of a point or of a size: of two numbers. -/
def pairOf? (value : Value) : Option Json :=
  match value.vector? with
  | some [x, y] => some (.arr [.ofFloat x, .ofFloat y])
  | _ => none

/-- What the values of an update mark an object with. A separator goes from one point to another and has a type, a pillar has a center, a size and a rotation; a number of values that does not fit, or a value that is not what it should be, marks nothing. -/
def markOf? (key : String) (values : List Value) : Option Mark :=
  match key, values with
  | "tags+", [slug] => some ⟨"tags", slug.text, some (.str slug.text)⟩
  | "tags-", [slug] => some ⟨"tags", slug.text, none⟩
  | "separators+", [name, start, stop, kind] => do
    let startPosition ← pairOf? start
    let endPosition ← pairOf? stop
    return ⟨"separators", name.text, some (.obj [("endPosXYm", endPosition), ("startPosXYm", startPosition),
      ("type", .str kind.text)])⟩
  | "separators-", [name] => some ⟨"separators", name.text, none⟩
  | "pillars+", [name, center, size, rotation] => do
    let angle ← rotation.float?
    let center ← pairOf? center
    let size ← pairOf? size
    return ⟨"pillars", name.text, some (.obj [("centerXY", center), ("rotation", .ofFloat angle),
      ("sizeXY", size)])⟩
  | "pillars-", [name] => some ⟨"pillars", name.text, none⟩
  | _, _ => none

/-- A removal can be made if there is something to remove, and an object can be tagged if the tag exists. -/
structure Mark.Allowed (hierarchy : Store) (marks : List Mark) (m : Mark) : Prop where
  there (h : m.entry = none) : marked? m.place m.name marks ≠ none
  tag (hplace : m.place = "tags") (h : m.entry ≠ none) : hierarchy.Exists (Path.join Path.tags m.name)

theorem Mark.allowed_removal_iff {hierarchy : Store} :
    Allowed hierarchy marks ⟨place, name, none⟩ ↔ marked? place name marks ≠ none := by
  constructor
  · exact fun h => h.there rfl
  · exact fun hthere => ⟨fun _ => hthere, fun _ hentry => absurd rfl hentry⟩

theorem Mark.allowed_addition_iff {hierarchy : Store} {entry : Json} :
    Allowed hierarchy marks ⟨place, name, some entry⟩ ↔
      (place = "tags" → hierarchy.Exists (Path.join Path.tags name)) := by
  have hentry : some entry ≠ none := Option.some_ne_none entry
  constructor
  · exact fun h hplace => h.tag hplace hentry
  · exact fun htag => ⟨fun hnone => absurd hnone hentry, fun hplace _ => htag hplace⟩

/-! ### Reading the values -/

theorem toOption_vectorOf (value : Value) (what : String) :
    (Command.vectorOf value what 2).toOption.map Json.ofVector = pairOf? value := by
  unfold Command.vectorOf pairOf?
  cases value.vector? with
  | none => rfl
  | some xs =>
    match xs with
    | [] | [_] | [_, _] | _ :: _ :: _ :: _ => rfl

theorem toOption_separatorEntry (values : List Value) :
    ((separatorEntry values).map fun entry => ⟨"separators", entry.1, some entry.2⟩).toOption =
      markOf? "separators+" values := by
  match values with
  | [] | [_] | [_, _] | [_, _, _] | _ :: _ :: _ :: _ :: _ :: _ => rfl
  | [name, start, stop, kind] =>
    simp only [separatorEntry, markOf?, ← toOption_vectorOf start "startPos", ← toOption_vectorOf stop "endPos"]
    cases Command.vectorOf start "startPos" 2 with
    | error e => rfl
    | ok _ => cases Command.vectorOf stop "endPos" 2 <;> rfl

theorem toOption_pillarEntry (values : List Value) :
    ((pillarEntry values).map fun entry => ⟨"pillars", entry.1, some entry.2⟩).toOption =
      markOf? "pillars+" values := by
  match values with
  | [] | [_] | [_, _] | [_, _, _] | _ :: _ :: _ :: _ :: _ :: _ => rfl
  | [name, center, size, rotation] =>
    simp only [pillarEntry, markOf?, ← toOption_vectorOf center "centerXY", ← toOption_vectorOf size "sizeXY"]
    cases rotation.float? with
    | none => rfl
    | some angle =>
      cases Command.vectorOf center "centerXY" 2 with
      | error e => rfl
      | ok _ => cases Command.vectorOf size "sizeXY" 2 <;> rfl

theorem toOption_newTag (values : List Value) :
    ((singleValue values "tags+").map fun slug => ⟨"tags", slug.text, some (.str slug.text)⟩).toOption =
      markOf? "tags+" values := by
  match values with
  | [] | [_] | _ :: _ :: _ => rfl

theorem toOption_removal (h : (key, place) ∈ removals) (values : List Value) :
    ((singleValue values key).map fun name => ⟨place, name.text, none⟩).toOption = markOf? key values := by
  simp only [removals, List.mem_cons, Prod.mk.injEq, List.not_mem_nil, or_false] at h
  obtain ⟨rfl, rfl⟩ | ⟨rfl, rfl⟩ | ⟨rfl, rfl⟩ := h
  all_goals
    match values with
    | [] | [_] | _ :: _ :: _ => rfl

theorem markOf?_removal (h : (key, place) ∈ removals) (v : Value) :
    markOf? key [v] = some ⟨place, v.text, none⟩ := (toOption_removal h [v]).symm

namespace Command

variable {β ν : Type} [Hierarchy β] [Viewer ν] {target : String} {values : List Value} {sharp : Bool}

def markPatch (target : String) (m : Mark) : Command β ν Object :=
  match m.entry with
  | some entry => if m.place = "tags" then addTag target m.name else addNamed target m.place m.name entry
  | none => if m.place = "tags" then removeTag target m.name else removeNamed target m.place m.name

/-- The updates of tags and named maps read their values as the mark, or refuse them, and differ in nothing else. -/
theorem updatePatch_eq_markPatch (hkey : key ∈ markKeys) (htags : Path.isUnder target Path.tags = false)
    (values : List Value) (sharp : Bool) (s : Session β ν) : ∃ reading : Except EvalError Mark,
      reading.toOption = markOf? key values ∧ updatePatch target key values sharp s =
        (do let m ← settle reading; return some (← markPatch target m)) s := by
  unfold updatePatch
  rw [htags]
  simp only [markKeys, List.mem_cons, List.not_mem_nil, or_false] at hkey
  obtain rfl | rfl | rfl | rfl | rfl | rfl := hkey
  · refine ⟨_, toOption_newTag values, ?_⟩
    cases singleValue values "tags+" <;> rfl
  · refine ⟨_, toOption_removal (show ("tags-", "tags") ∈ removals by decide) values, ?_⟩
    cases singleValue values "tags-" <;> rfl
  · refine ⟨_, toOption_separatorEntry values, ?_⟩
    cases separatorEntry values <;> rfl
  · refine ⟨_, toOption_removal (show ("separators-", "separators") ∈ removals by decide) values, ?_⟩
    cases singleValue values "separators-" <;> rfl
  · refine ⟨_, toOption_pillarEntry values, ?_⟩
    cases pillarEntry values <;> rfl
  · refine ⟨_, toOption_removal (show ("pillars-", "pillars") ∈ removals by decide) values, ?_⟩
    cases singleValue values "pillars-" <;> rfl

/-- What an update reads of the tags. -/
theorem tagsOf_eq {slugs : List String} (h : HasTags object slugs) : tagsOf object = slugs.map .str := by
  rcases h with ⟨hnone, rfl⟩ | hsome
  · rw [tagsOf, hnone]
    rfl
  · rw [tagsOf, hsome]
    rfl

theorem any_isTextOf (slug : String) (slugs : List String) :
    (slugs.map Json.str).any (isTextOf slug) = decide (slug ∈ slugs) := by
  rw [Bool.eq_iff_iff, decide_eq_true_iff, List.any_map, List.any_eq_true]
  constructor
  · rintro ⟨other, hother, htext⟩
    obtain rfl : other = slug := by simpa [isTextOf, Json.text?] using htext
    exact hother
  · exact fun h => ⟨slug, h, by simp [isTextOf, Json.text?]⟩

theorem filter_isTextOf (slug : String) (slugs : List String) :
    ((slugs.map Json.str).filter fun tag => !isTextOf slug tag) = (slugs.filter (· ≠ slug)).map .str := by
  rw [List.filter_map]
  congr 1
  refine List.filter_congr fun other _ => ?_
  simp [isTextOf, Json.text?, beq_eq_decide]

/-- Some slugs, with one that may be among them already. -/
def withSlug (slug : String) (slugs : List String) : List String :=
  if slug ∈ slugs then slugs else slugs ++ [slug]

theorem mem_withSlug {slug other : String} {slugs : List String} :
    other ∈ withSlug slug slugs ↔ other = slug ∨ other ∈ slugs := by
  unfold withSlug
  split
  · rename_i hthere
    exact ⟨.inr, fun h => h.elim (fun heq => heq ▸ hthere) id⟩
  · rw [List.mem_append, List.mem_singleton, or_comm]

theorem nodup_withSlug (slug : String) {slugs : List String} (h : slugs.Nodup) : (withSlug slug slugs).Nodup := by
  unfold withSlug
  split
  · exact h
  · rename_i hnew
    exact h.append (List.nodup_singleton slug) fun other hother hmem =>
      hnew (List.mem_singleton.1 hmem ▸ hother)

/-- The patch of a mark is made in a session if the mark is allowed: nothing changes in the hierarchy, and the patch leaves an object with the mark. Otherwise it is refused. -/
inductive Patches (target : String) (start object : Object) (marks : List Mark) (m : Mark)
    (s : Session Store ν) : Prop
  | made {patch : Object} {s' : Session Store ν} (h : markPatch target m s = .ok patch s')
    (hhierarchy : s'.hierarchy = s.hierarchy)
    (hmarked : Marked (m :: marks) start (Store.applyPatch object patch))
    (hallowed : m.Allowed s.hierarchy marks)
  | refused {stop : Stop} (h : markPatch target m s = .error stop s) (hnot : ¬m.Allowed s.hierarchy marks)

section Patches

omit [Viewer ν]

variable {s : Session Store ν} (hstored : s.hierarchy.objects.get? target = some object)
  (hmarked : Marked marks start object)
include hstored hmarked

theorem patches_addNamed (hplace : place ∈ namedMaps) (name : String) (entry : Json) :
    Patches target start object marks ⟨place, name, some entry⟩ s := by
  have hentries : ∀ other, ((namedMap object place).insert name entry).get? other =
      marked? place other (⟨place, name, some entry⟩ :: marks) := by
    intro other
    rw [Dict.get?_insert, marked?_cons, hmarked.get?_namedMap hplace]
    simp only [true_and, eq_comm]
  have hpatch := hmarked.map hplace hentries
  have hplain : markPatch target ⟨place, name, some entry⟩ s = addNamed target place name entry s :=
    congrFun (if_neg (ne_tags_of_namedMap hplace)) s
  -- An entry that is replaced is reported, but nothing else tells the two cases apart.
  obtain ⟨s', hmade, hhierarchy⟩ : ∃ s', addNamed target place name entry s =
      .ok (attributePatch place (Json.ofObject ((namedMap object place).insert name entry))) s' ∧
        s'.hierarchy = s.hierarchy := by
    rw [addNamed, bind_of_ok (getObject_eq_ok hstored)]
    by_cases hcontains : (namedMap object place).contains name
    · refine ⟨{ s with output := s.output.push (place ++ " " ++ name ++ " replaced") }, ?_, rfl⟩
      simp only [hcontains]
      rfl
    · refine ⟨s, ?_, rfl⟩
      simp only [hcontains]
      rfl
  exact .made (hplain.trans hmade) hhierarchy hpatch
    (Mark.allowed_addition_iff.2 fun htags => absurd htags (ne_tags_of_namedMap hplace))

theorem patches_removeNamed (hplace : place ∈ namedMaps) (name : String) :
    Patches target start object marks ⟨place, name, none⟩ s := by
  have hplain : markPatch target ⟨place, name, none⟩ s = removeNamed target place name s :=
    congrFun (if_neg (ne_tags_of_namedMap hplace)) s
  have hfound := hmarked.get?_namedMap hplace name
  by_cases hcontains : (namedMap object place).contains name
  · have hentries : ∀ other, ((namedMap object place).erase name).get? other =
        marked? place other (⟨place, name, none⟩ :: marks) := by
      intro other
      rw [Dict.get?_erase, marked?_cons, hmarked.get?_namedMap hplace]
      simp only [true_and, eq_comm]
    have hthere : marked? place name marks ≠ none := by
      rw [← hfound]
      exact Option.isSome_iff_ne_none.1 hcontains
    refine .made ?_ rfl (hmarked.map hplace hentries) (Mark.allowed_removal_iff.2 hthere)
    rw [hplain, removeNamed, bind_of_ok (getObject_eq_ok hstored), if_pos hcontains]
    rfl
  · have hrefused : removeNamed target place name s = .error (.failed (.runtime (.noEntry place name target))) s := by
      rw [removeNamed, bind_of_ok (getObject_eq_ok hstored), if_neg hcontains]
      rfl
    refine .refused (hplain.trans hrefused) fun hallowed => Mark.allowed_removal_iff.1 hallowed ?_
    rw [← hfound]
    exact Option.not_isSome_iff_eq_none.1 hcontains

theorem patches_addTag (slug : String) (entry : Json) :
    Patches target start object marks ⟨"tags", slug, some entry⟩ s := by
  obtain ⟨slugs, hslugs, hnodup, hmem⟩ := hmarked.tags
  have hexists := pathExists_eq (Path.join Path.tags slug) s
  by_cases htag : s.hierarchy.Exists (Path.join Path.tags slug)
  · rw [decide_eq_true htag] at hexists
    have hpatch : addTag target slug s = .ok (patchOf "tags" (.arr ((withSlug slug slugs).map .str))) s := by
      rw [addTag, bind_of_ok (getObject_eq_ok hstored), bind_of_ok hexists, tagsOf_eq hslugs, any_isTextOf]
      by_cases hthere : slug ∈ slugs
      · rw [decide_eq_true hthere, withSlug, if_pos hthere]
        rfl
      · rw [decide_eq_false hthere, withSlug, if_neg hthere, List.map_append]
        rfl
    refine .made hpatch rfl (hmarked.tag rfl (nodup_withSlug slug hnodup) fun other => ?_)
      (Mark.allowed_addition_iff.2 fun _ => htag)
    rw [marked?_cons, mem_withSlug, hmem]
    by_cases hother : other = slug
    · rw [if_pos ⟨rfl, hother.symm⟩]
      exact iff_of_true (.inl hother) rfl
    · rw [if_neg fun h => hother h.2.symm]
      exact or_iff_right hother
  · rw [decide_eq_false htag] at hexists
    have hrefused : addTag target slug s = .error (.failed (.path (.unknownTag slug))) s :=
      (bind_of_ok (getObject_eq_ok hstored)).trans (bind_of_ok hexists)
    exact .refused hrefused fun hallowed => htag (Mark.allowed_addition_iff.1 hallowed rfl)

theorem patches_removeTag (slug : String) : Patches target start object marks ⟨"tags", slug, none⟩ s := by
  obtain ⟨slugs, hslugs, hnodup, hmem⟩ := hmarked.tags
  have hpatch : removeTag target slug s =
      if slug ∈ slugs then .ok (patchOf "tags" (.arr ((slugs.filter (· ≠ slug)).map .str))) s
      else .error (.failed (.runtime (.notTagged target slug))) s := by
    rw [removeTag, bind_of_ok (getObject_eq_ok hstored), tagsOf_eq hslugs, any_isTextOf, filter_isTextOf]
    by_cases hthere : slug ∈ slugs
    · simp only [hthere]
      rfl
    · simp only [hthere]
      rfl
  by_cases hthere : slug ∈ slugs
  · rw [if_pos hthere] at hpatch
    have htagged : marked? "tags" slug marks ≠ none := Option.isSome_iff_ne_none.1 ((hmem slug).1 hthere)
    refine .made hpatch rfl (hmarked.tag rfl (hnodup.filter _) fun other => ?_)
      (Mark.allowed_removal_iff.2 htagged)
    · rw [marked?_cons, List.mem_filter, decide_eq_true_iff]
      by_cases hother : slug = other
      · rw [if_pos ⟨rfl, hother⟩]
        exact iff_of_false (fun h => h.2 hother.symm) Bool.false_ne_true
      · rw [if_neg fun h => hother h.2, ← hmem]
        exact and_iff_left (Ne.symm hother)
  · rw [if_neg hthere] at hpatch
    refine .refused hpatch fun hallowed => Mark.allowed_removal_iff.1 hallowed ?_
    rwa [hmem, Option.not_isSome_iff_eq_none] at hthere

/-- Every mark of the six updates is made or refused. -/
theorem patches (hplace : m.place = "tags" ∨ m.place ∈ namedMaps) : Patches target start object marks m s := by
  obtain ⟨place, name, entry⟩ := m
  cases entry with
  | none =>
    rcases hplace with rfl | hplace
    · exact patches_removeTag hstored hmarked name
    · exact patches_removeNamed hstored hmarked hplace name
  | some entry =>
    rcases hplace with rfl | hplace
    · exact patches_addTag hstored hmarked name entry
    · exact patches_addNamed hstored hmarked hplace name entry

end Patches

/-- What an update of a marked object comes to: if its values give a mark that is allowed, the object is patched and marked; otherwise nothing changes. -/
inductive Marks (target key : String) (values : List Value) (sharp : Bool) (start object : Object)
    (marks : List Mark) (s : Session Store ν) : Prop
  | done {m : Mark} {updated : Object} {value : Value} {s' : Session Store ν}
    (h : updateOne key values sharp target s = .ok (some value) s') (hm : markOf? key values = some m)
    (hhierarchy : s'.hierarchy = ⟨s.hierarchy.objects.insert target updated⟩)
    (hmarked : Marked (m :: marks) start updated) (hallowed : m.Allowed s.hierarchy marks)
  | refused {stop : Stop} (h : updateOne key values sharp target s = .error stop s)
    (hnot : ∀ m, markOf? key values = some m → ¬m.Allowed s.hierarchy marks)

theorem place_of_markOf? (h : markOf? key values = some m) : m.place = "tags" ∨ m.place ∈ namedMaps := by
  unfold markOf? at h
  split at h
  case h_3 =>
    simp only [Option.bind_eq_bind, Option.bind_eq_some_iff, Option.pure_def, Option.some.injEq] at h
    obtain ⟨_, -, _, -, rfl⟩ := h
    simp [namedMaps]
  case h_5 =>
    simp only [Option.bind_eq_bind, Option.bind_eq_some_iff, Option.pure_def, Option.some.injEq] at h
    obtain ⟨_, -, _, -, _, -, rfl⟩ := h
    simp [namedMaps]
  case h_7 => cases h
  all_goals
    obtain rfl := Option.some.inj h
    simp [namedMaps]

theorem marks_updateOne {s : Session Store ν} (hkey : key ∈ markKeys)
    (htags : Path.isUnder target Path.tags = false) (hstored : s.hierarchy.objects.get? target = some object)
    (hmarked : Marked marks start object) : Marks target key values sharp start object marks s := by
  obtain ⟨reading, hreading, hupdate⟩ := updatePatch_eq_markPatch hkey htags values sharp s
  cases reading with
  | error e => exact .refused (bind_of_error hupdate) fun m hm => by rw [← hreading] at hm; cases hm
  | ok m =>
    have hm : markOf? key values = some m := hreading.symm
    have hsettle : settle (.ok m) s = .ok m s := rfl
    rw [bind_of_ok hsettle] at hupdate
    cases patches hstored hmarked (place_of_markOf? hm) with
    | @made patch s₁ hpatch hhierarchy hpatched hallowed =>
      rw [bind_of_ok hpatch] at hupdate
      have hstored₁ : s₁.hierarchy.objects.get? target = some object := by rw [hhierarchy, hstored]
      obtain ⟨viewer, hrest⟩ := patchStored_eq hstored₁ patch fun object =>
        pure (some (Value.object (object.erase "children")))
      refine .done ((bind_of_ok hupdate).trans hrest) hm ?_ hpatched hallowed
      rw [← hhierarchy]
      rfl
    | refused hpatch hnot =>
      rw [bind_of_error hpatch] at hupdate
      refine .refused (bind_of_error hupdate) fun m' hm' => ?_
      obtain rfl := Option.some.inj (hm.symm.trans hm')
      exact hnot

theorem keeps_evalAll_of_plain {P : Session Store ν → Prop} (fuel : Nat) {nodes : List Node}
    (h : ∀ node ∈ nodes, node.Plain) : Keeps P (evalAll (execute fuel) nodes) := by
  rw [evalAll_congr (sameOn_within Node.Plain.part _) h]
  exact keeps_evalAll (gives_within fun _ => keeps_execute_of_plain fuel) nodes

end Command

/-! ### Runs -/

/-- An update as it is written. -/
structure Edit where
  path : Node
  key : String
  values : List Node
  sharp : Bool

def Edit.node (u : Edit) : Node := .update u.path u.key u.values u.sharp

namespace Session

variable {ν : Type} [Viewer ν] {s s₀ : Session Store ν} {target : String} {u : Edit} {edits : List Edit}

/-- The update is one of the six, with expressions for its values, and applies to the object at `target` alone. -/
structure IsEdit (target : String) (s : Session Store ν) (u : Edit) : Prop where
  key : u.key ∈ markKeys
  values : ∀ node ∈ u.values, node.Plain
  path : u.path.Plain
  aimed : ∃ s', Command.updateTargets evalArgument u.path s = .ok [target] s'

/-- The mark that an update makes in a session; none if it fails. -/
def mark? (s : Session Store ν) (u : Edit) : Option Mark :=
  match eval u.node s, Command.evalAll evalArgument u.values s with
  | .ok _ _, .ok values _ => markOf? u.key values
  | _, _ => none

/-- The session after some updates, of which any may fail. -/
def afterEdits : List Edit → Session Store ν → Session Store ν
  | [], s => s
  | u :: edits, s => afterEdits edits (Command.after (eval u.node) s)

/-- The marks that some updates make, most recent first, on top of earlier ones. -/
def marksAfter : List Edit → Session Store ν → List Mark → List Mark
  | [], _, marks => marks
  | u :: edits, s, marks => marksAfter edits (Command.after (eval u.node) s) ((s.mark? u).toList ++ marks)

/-- Each of some updates is one of the six on an object, where it comes. -/
def AllEdits (target : String) : List Edit → Session Store ν → Prop
  | [], _ => True
  | u :: edits, s => IsEdit target s u ∧ AllEdits target edits (Command.after (eval u.node) s)

/-- An object has the marks it should have, and all others are as they were. -/
structure HasMarks (target : String) (start : Object) (s₀ : Session Store ν) (marks : List Mark)
    (s : Session Store ν) : Prop where
  object : ∃ object, s.hierarchy.objects.get? target = some object ∧ Marked marks start object
  others {path : String} (h : path ≠ target) :
    s.hierarchy.objects.get? path = s₀.hierarchy.objects.get? path

/-- What an update does to the history of an object: if its values are found and give a mark that is allowed, it succeeds and adds the mark; otherwise it fails and changes nothing. -/
inductive Continues (target : String) (start : Object) (s₀ : Session Store ν) (marks : List Mark)
    (s : Session Store ν) (u : Edit) : Prop
  | done {m : Mark} {value : Value} {values : List Value} {s₁ s' : Session Store ν}
    (h : eval u.node s = .ok value s') (hvalues : Command.evalAll evalArgument u.values s = .ok values s₁)
    (hm : markOf? u.key values = some m) (hallowed : m.Allowed s.hierarchy marks)
    (hmarks : HasMarks target start s₀ (m :: marks) s')
  | refused {stop : Stop} {s' : Session Store ν} (h : eval u.node s = .error stop s')
    (hsame : s'.hierarchy = s.hierarchy)
    (hnot : ∀ values s₁ m, Command.evalAll evalArgument u.values s = .ok values s₁ →
      markOf? u.key values = some m → ¬m.Allowed s.hierarchy marks)

theorem continues_edit (htags : Path.isUnder target Path.tags = false)
    (hs : HasMarks target start s₀ marks s) (hu : IsEdit target s u) : Continues target start s₀ marks s u := by
  obtain ⟨hkey, hplain, hpath, s₂, haimed⟩ := hu
  have hkeeps : Command.Keeps (· = s) (Command.evalAll evalArgument u.values) :=
    Command.keeps_evalAll_of_plain (defaultFuel - 1) hplain
  have hpost := hkeeps s rfl
  cases hvalues : Command.evalAll evalArgument u.values s with
  | error stop s₁ =>
    rw [hvalues] at hpost
    have heval : eval u.node s = .error stop s₁ := by
      rw [Edit.node, eval_eq_step]
      exact Command.bind_of_error hvalues
    exact .refused heval (by rw [hpost]) fun _ _ _ hok => by rw [hvalues] at hok; cases hok
  | ok values s₁ =>
    rw [hvalues] at hpost
    obtain ⟨rfl, -⟩ := hpost
    -- The values have changed nothing, so the path still applies to the object alone.
    have hsame := (Command.sameAs_of_updateTargets hpath haimed).2
    obtain ⟨object, hstored, hmarked⟩ := hs.object
    rw [← hsame] at hstored
    have hone : Command.Marks target u.key values u.sharp start object marks s₂ :=
      Command.marks_updateOne hkey htags hstored hmarked
    cases hone with
    | @done m updated value s' h hm hhierarchy hnow hallowed =>
      rw [hsame] at hallowed
      refine .done (eval_update_of_ok hvalues haimed h) hvalues hm hallowed
        ⟨⟨updated, ?_, hnow⟩, fun {path} hpath => ?_⟩
      · rw [hhierarchy]
        exact (Dict.get?_insert ..).trans (if_pos rfl)
      · rw [hhierarchy, ← hs.others hpath, ← hsame]
        exact (Dict.get?_insert ..).trans (if_neg hpath)
    | @refused stop h hnot =>
      refine .refused (eval_update_of_error hvalues haimed h) hsame fun values' s₁ m hvalues' hm => ?_
      obtain ⟨rfl, -⟩ := EStateM.Result.ok.inj (hvalues.symm.trans hvalues')
      rw [← hsame]
      exact hnot m hm

theorem mark?_of_ok {value : Value} {values : List Value} {s' s₁ : Session Store ν}
    (h : eval u.node s = .ok value s') (hvalues : Command.evalAll evalArgument u.values s = .ok values s₁) :
    s.mark? u = markOf? u.key values := by
  simp only [mark?, h, hvalues]

theorem mark?_of_error {stop : Stop} {s' : Session Store ν} (h : eval u.node s = .error stop s') :
    s.mark? u = none := by
  simp only [mark?, h]

namespace Continues

/-- The mark of an update is the one that its values give, if it is allowed; without one the update fails. -/
theorem mark?_eq_some_iff (h : Continues target start s₀ marks s u) (m : Mark) : s.mark? u = some m ↔
    ∃ values s₁, Command.evalAll evalArgument u.values s = .ok values s₁ ∧ markOf? u.key values = some m ∧
      m.Allowed s.hierarchy marks := by
  cases h with
  | @done _ _ values s₁ _ h hvalues hm hallowed =>
    rw [mark?_of_ok h hvalues]
    constructor
    · intro heq
      obtain rfl := Option.some.inj (hm.symm.trans heq)
      exact ⟨values, s₁, hvalues, hm, hallowed⟩
    · intro ⟨values', _, hvalues', hm', _⟩
      obtain ⟨rfl, -⟩ := EStateM.Result.ok.inj (hvalues.symm.trans hvalues')
      exact hm'
  | refused h _ hnot =>
    rw [mark?_of_error h]
    exact iff_of_false nofun fun ⟨values, s₁, hvalues, hm, hallowed⟩ => hnot values s₁ m hvalues hm hallowed

theorem succeeds_iff (h : Continues target start s₀ marks s u) :
    (∃ value s', eval u.node s = .ok value s') ↔ (s.mark? u).isSome := by
  cases h with
  | @done _ value _ _ s' h hvalues hm =>
    rw [mark?_of_ok h hvalues, hm]
    exact iff_of_true ⟨value, s', h⟩ rfl
  | refused h =>
    rw [mark?_of_error h, h]
    simp

theorem unchanged {stop : Stop} {s' : Session Store ν} (h : Continues target start s₀ marks s u)
    (herror : eval u.node s = .error stop s') : s'.hierarchy = s.hierarchy := by
  cases h with
  | done h =>
    rw [h] at herror
    cases herror
  | refused h hsame =>
    rw [h] at herror
    cases herror
    exact hsame

/-- A removal fails if there is nothing to remove, and for no other reason. -/
theorem removal_fails_iff {v : Value} {s₁ : Session Store ν} (h : Continues target start s₀ marks s u)
    (hplace : (u.key, place) ∈ removals) (hone : Command.evalAll evalArgument u.values s = .ok [v] s₁) :
    (∃ stop s', eval u.node s = .error stop s') ↔ marked? place v.text marks = none := by
  have hmark : markOf? u.key [v] = some ⟨place, v.text, none⟩ := markOf?_removal hplace v
  cases h with
  | done h hvalues hm hallowed =>
    obtain ⟨rfl, -⟩ := EStateM.Result.ok.inj (hone.symm.trans hvalues)
    obtain rfl := Option.some.inj (hmark.symm.trans hm)
    rw [h]
    exact iff_of_false (by simp) (Mark.allowed_removal_iff.1 hallowed)
  | @refused stop s' h _ hnot =>
    refine iff_of_true ⟨stop, s', h⟩ ?_
    by_contra hthere
    exact hnot _ _ _ hone hmark (Mark.allowed_removal_iff.2 hthere)

end Continues

/-- The history goes on through all updates. -/
theorem hasMarks_afterEdits (htags : Path.isUnder target Path.tags = false)
    (hs : HasMarks target start s₀ marks s) (hedits : AllEdits target edits s) :
    HasMarks target start s₀ (marksAfter edits s marks) (afterEdits edits s) := by
  induction edits generalizing s marks with
  | nil => exact hs
  | cons u edits ih =>
    obtain ⟨hu, hrest⟩ := hedits
    refine ih ?_ hrest
    cases continues_edit htags hs hu with
    | done h hvalues hm _ hmarks =>
      rw [Command.after_of_ok h, mark?_of_ok h hvalues, hm]
      exact hmarks
    | refused h hsame =>
      rw [Command.after_of_error h, mark?_of_error h]
      exact ⟨by rw [hsame]; exact hs.object, fun hpath => by rw [hsame]; exact hs.others hpath⟩

/-- After any number of updates, failed ones included, the tags of an object are the slugs that were last added, without duplicates, and its named maps have the names that were last added, with the entries that the values of these updates give. All other fields, attributes and objects are as they were. The next update then succeeds exactly if its values give a mark that is allowed, which is the mark that it makes, and changes nothing if it fails; given one value, a removal fails exactly if there is nothing to remove. -/
theorem marked_afterEdits (htags : Path.isUnder target Path.tags = false)
    (hstored : s.hierarchy.objects.get? target = some start) (hstart : Unmarked start)
    (hedits : AllEdits target edits s) :
    (∃ object, (afterEdits edits s).hierarchy.objects.get? target = some object ∧
      Marked (marksAfter edits s []) start object) ∧
    (∀ path, path ≠ target →
      (afterEdits edits s).hierarchy.objects.get? path = s.hierarchy.objects.get? path) ∧
    ∀ u, IsEdit target (afterEdits edits s) u →
      ((∃ value s', eval u.node (afterEdits edits s) = .ok value s') ↔ ((afterEdits edits s).mark? u).isSome) ∧
      (∀ m, (afterEdits edits s).mark? u = some m ↔
        ∃ values s₁, Command.evalAll evalArgument u.values (afterEdits edits s) = .ok values s₁ ∧
          markOf? u.key values = some m ∧
          m.Allowed (afterEdits edits s).hierarchy (marksAfter edits s [])) ∧
      (∀ stop s', eval u.node (afterEdits edits s) = .error stop s' →
        s'.hierarchy = (afterEdits edits s).hierarchy) ∧
      ∀ place v s₁, (u.key, place) ∈ removals →
        Command.evalAll evalArgument u.values (afterEdits edits s) = .ok [v] s₁ →
        ((∃ stop s', eval u.node (afterEdits edits s) = .error stop s') ↔
          marked? place v.text (marksAfter edits s []) = none) := by
  have hmarks := hasMarks_afterEdits htags ⟨⟨start, hstored, hstart.marked⟩, fun _ => rfl⟩ hedits
  refine ⟨hmarks.object, fun path => hmarks.others, fun u hu => ?_⟩
  have hcontinues := continues_edit htags hmarks hu
  exact ⟨hcontinues.succeeds_iff, hcontinues.mark?_eq_some_iff, fun stop s' => hcontinues.unchanged,
    fun place v s₁ => hcontinues.removal_fails_iff⟩

/-- A room that has a width cannot be tagged with a tag that does not exist, and then gets a separator. -/
theorem marked_afterEdits_room : ∃ (s : Session Store Recorder) (start object : Object) (wall : Json)
    (failing edit : Edit), wall = .obj [("endPosXYm", .arr [.float 2, .float 3]),
      ("startPosXYm", .arr [.float 0, .float 1]), ("type", .str "plain")] ∧
    s.hierarchy.objects.get? "/Physical/a" = some start ∧ Unmarked start ∧
    AllEdits "/Physical/a" [failing, edit] s ∧
    marksAfter [failing, edit] s [] = [⟨"separators", "wall", some wall⟩] ∧
    (afterEdits [failing, edit] s).hierarchy.objects.get? "/Physical/a" = some object ∧
    Marked (marksAfter [failing, edit] s []) start object ∧ attributeOf? object "width" = some (.int 1) ∧
    (attributeOf? object "separators").bind (·.field? "wall") = some wall := by
  obtain ⟨start, hstart⟩ : ∃ start : Object, start = Dict.ofList [("attributes", .obj [("width", .int 1)])] :=
    ⟨_, rfl⟩
  obtain ⟨s, hs⟩ : ∃ s : Session Store Recorder,
    s = { hierarchy := Store.empty.insert "/Physical/a" start, viewer := {} } := ⟨_, rfl⟩
  obtain ⟨failing, hfailing⟩ : ∃ u : Edit, u = ⟨.literalPath "/P/a", "tags+", [.text "blue"], false⟩ := ⟨_, rfl⟩
  obtain ⟨edit, hedit⟩ : ∃ u : Edit, u = ⟨.literalPath "/P/a", "separators+", [.text "wall",
    .array [.literal (.int 0), .literal (.int 1)], .array [.literal (.int 2), .literal (.int 3)], .text "plain"],
    false⟩ := ⟨_, rfl⟩
  have hstored : s.hierarchy.objects.get? "/Physical/a" = some start := by
    rw [hs, hstart]
    rfl
  have hclean : Unmarked start := by
    rw [hstart]
    refine ⟨rfl, fun hplace => ?_, ?_⟩
    · simp only [namedMaps, List.mem_cons, List.not_mem_nil, or_false] at hplace
      obtain rfl | rfl := hplace <;> rfl
    · rintro _ ⟨⟩
      rfl
  have haimed : Command.updateTargets evalArgument (.literalPath "/P/a") s = .ok ["/Physical/a"] s := by
    rw [hs, hstart]
    rfl
  have hafter : Command.after (eval failing.node) s = s ∧ s.mark? failing = none := by
    rw [hfailing, hs, hstart]
    exact ⟨rfl, rfl⟩
  have hpath : (Node.literalPath "/P/a").Plain := (Node.parsed_literalPath "/P/a").plain rfl
  have hint (n : Int64) : (Node.literal (.int n)).Plain := .intro rfl nofun
  have hpair (m n : Int64) : (Node.array [.literal (.int m), .literal (.int n)]).Plain :=
    .intro rfl (List.forall_mem_cons.2 ⟨hint m, List.forall_mem_singleton.2 (hint n)⟩)
  have hedits : AllEdits "/Physical/a" [failing, edit] s := by
    refine ⟨?_, ?_, trivial⟩
    · rw [hfailing]
      exact ⟨by decide, List.forall_mem_singleton.2 (Node.plain_text "blue"), hpath, s, haimed⟩
    · rw [hafter.1, hedit]
      refine ⟨by decide, ?_, hpath, s, haimed⟩
      simp only [List.forall_mem_cons]
      exact ⟨Node.plain_text "wall", hpair 0 1, hpair 2 3, Node.plain_text "plain", nofun⟩
  obtain ⟨wall, hwall⟩ : ∃ wall : Json, wall = .obj [("endPosXYm", .arr [.float 2, .float 3]),
    ("startPosXYm", .arr [.float 0, .float 1]), ("type", .str "plain")] := ⟨_, rfl⟩
  have hmarks : marksAfter [failing, edit] s [] = [⟨"separators", "wall", some wall⟩] := by
    rw [marksAfter, hafter.1, hafter.2, hedit, hs, hstart, hwall]
    rfl
  obtain ⟨⟨object, hobject, hmarked⟩, -, -⟩ := marked_afterEdits (by decide) hstored hclean hedits
  refine ⟨s, start, object, wall, failing, edit, hwall, hstored, hclean, hedits, hmarks, hobject, hmarked, ?_, ?_⟩
  · rw [hmarked.attributes (by decide), hstart]
    rfl
  · refine hmarked.field?_of_marked (by decide) ?_
    rw [hmarks]
    rfl

end Session

end TwinShell
