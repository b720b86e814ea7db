import TwinShell.Proofs.Path.Resolving

/-!
# What lies below a path

Below a path in canonical form are the paths whose segments go on after its own. What comes after, the names below the path, is what the users of a path work with: it says how much deeper a path is, and put together with dots it is the name of an object below a namespace. Dots between the names can be told from the rest only if no name has one.
-/

namespace TwinShell

namespace Text

theorem dropStem?_eq_some_iff {stem text rest : String} :
    dropStem? stem text = some rest ↔ text = stem ++ rest := by
  simp only [dropStem?, List.isPrefixOf_iff_prefix]
  rw [← String.toList_inj, String.toList_append]
  constructor
  · intro h
    split at h
    · rename_i hstem
      obtain ⟨more, hmore⟩ := hstem
      rw [← hmore, List.drop_left, Option.some.injEq] at h
      rw [← hmore, ← h, String.toList_ofList]
    · cases h
  · intro h
    rw [h, if_pos (List.prefix_append _ _), List.drop_left, String.ofList_toList]

end Text

namespace Path

variable {path root p q : String} {names : List String}

theorem Canonical.isSegment (h : Canonical path) : ∀ s ∈ segments path, IsSegment s := by
  obtain ⟨segs, rfl, hsegs⟩ := h
  rwa [segments_of_isSegment hsegs]

theorem Canonical.ofSegments_segments (h : Canonical path) : ofSegments (segments path) = path :=
  (canonical_iff.1 h).1

theorem Canonical.segments_ne_nil (h : Canonical path) (hroot : path ≠ "/") : segments path ≠ [] := by
  intro hnil
  rw [← h.ofSegments_segments, hnil] at hroot
  exact hroot rfl

theorem Canonical.eq_of_segments_eq (hp : Canonical p) (hq : Canonical q) (h : segments p = segments q) : p = q := by
  rw [← hp.ofSegments_segments, h, hq.ofSegments_segments]

theorem ofSegments_append {a b : List String} (ha : a ≠ []) (hb : b ≠ []) :
    ofSegments (a ++ b) = ofSegments a ++ ofSegments b := by
  rw [ofSegments, String.intercalate_append_of_ne_nil ha hb, ofSegments, ofSegments, ← String.append_assoc,
    ← String.append_assoc, ← String.append_assoc]

/-! ### The names below a path -/

/-- The path lies strictly below another. -/
def Below (path root : String) : Prop := isUnder path root ∧ path ≠ root

instance (path root : String) : Decidable (Below path root) := inferInstanceAs (Decidable (_ ∧ _))

/-- The segments of a path after those of another that it lies below. -/
def namesBelow (root path : String) : List String := (segments path).drop (segments root).length

theorem segments_of_isUnder (h : isUnder path root) : segments path = segments root ++ namesBelow root path := by
  suffices h : ∃ names, segments path = segments root ++ names by
    obtain ⟨names, hnames⟩ := h
    rw [namesBelow, hnames, List.drop_left]
  rcases isUnder_iff.1 h with rfl | ⟨rest, hrest⟩
  · exact ⟨[], (List.append_nil _).symm⟩
  · have hpath : path = root ++ "/" ++ String.ofList rest := by
      apply String.toList_injective
      simp [hrest]
    exact ⟨segments (String.ofList rest), by rw [hpath, segments_append_slash]⟩

theorem Canonical.isSegment_namesBelow (h : Canonical path) (root : String) :
    ∀ name ∈ namesBelow root path, IsSegment name :=
  fun name hname => h.isSegment name (List.mem_of_mem_drop hname)

theorem namesBelow_ne_nil (hpath : Canonical path) (hroot : Canonical root) (h : Below path root) :
    namesBelow root path ≠ [] := by
  intro hnil
  refine h.2 (hpath.eq_of_segments_eq hroot ?_)
  rw [segments_of_isUnder h.1, hnil, List.append_nil]

theorem eq_of_namesBelow_eq (hp : Canonical p) (hq : Canonical q) (hpr : isUnder p root) (hqr : isUnder q root)
    (h : namesBelow root p = namesBelow root q) : p = q := by
  refine hp.eq_of_segments_eq hq ?_
  rw [segments_of_isUnder hpr, segments_of_isUnder hqr, h]

/-- A path strictly below another is that path, followed by a slash and the names below it. -/
theorem Below.eq_append (h : Below path root) (hpath : Canonical path) (hroot : Canonical root) (hne : root ≠ "/") :
    path = root ++ "/" ++ "/".intercalate (namesBelow root path) := by
  have hnames := namesBelow_ne_nil hpath hroot h
  calc path = ofSegments (segments root ++ namesBelow root path) := by
        rw [← segments_of_isUnder h.1, hpath.ofSegments_segments]
    _ = root ++ ofSegments (namesBelow root path) := by
        rw [ofSegments_append (hroot.segments_ne_nil hne) hnames, hroot.ofSegments_segments]
    _ = root ++ "/" ++ "/".intercalate (namesBelow root path) := by
        rw [ofSegments, String.append_assoc]

/-- Names put together with slashes do not start with one. -/
theorem intercalate_eq_cons (hnames : names ≠ []) (h : ∀ name ∈ names, IsSegment name) :
    ∃ c cs, ("/".intercalate names).toList = c :: cs ∧ c ≠ '/' := by
  obtain ⟨name, rest, rfl⟩ := List.exists_cons_of_ne_nil hnames
  have hname := h name List.mem_cons_self
  obtain ⟨c, cs, hcs⟩ := List.exists_cons_of_ne_nil (mt String.toList_eq_nil_iff.1 hname.ne_empty)
  have hslash := hname.no_slash
  rw [hcs] at hslash
  rw [String.toList_intercalate, List.map_cons, hcs]
  refine ⟨c, ?_⟩
  cases rest with
  | nil => exact ⟨cs, List.intercalate_singleton, (List.ne_of_not_mem_cons hslash).symm⟩
  | cons => exact ⟨_, List.intercalate_cons_cons, (List.ne_of_not_mem_cons hslash).symm⟩

theorem intercalate_ne_empty (hnames : names ≠ []) (h : ∀ name ∈ names, IsSegment name) :
    "/".intercalate names ≠ "" := by
  obtain ⟨c, cs, htext, -⟩ := intercalate_eq_cons hnames h
  intro hempty
  rw [hempty] at htext
  cases htext

/-! ### Dotted names -/

theorem replaceChar_intercalate (h : ∀ name ∈ names, '/' ∉ name.toList) :
    Text.replaceChar '/' ['.'] ("/".intercalate names) = ".".intercalate names := by
  have hkept : ∀ cs : List Char, '/' ∉ cs → cs.flatMap (fun c => if c = '/' then ['.'] else [c]) = cs := by
    intro cs hcs
    induction cs with
    | nil => rfl
    | cons c cs ih =>
      rw [List.flatMap_cons, if_neg (List.ne_of_not_mem_cons hcs).symm, ih (List.not_mem_of_not_mem_cons hcs),
        List.singleton_append]
  apply String.toList_injective
  rw [Text.replaceChar, String.toList_ofList]
  induction names with
  | nil => rfl
  | cons name rest ih =>
    obtain ⟨hname, hrest⟩ := List.forall_mem_cons.1 h
    have hname := hkept _ hname
    specialize ih hrest
    rw [String.toList_intercalate, String.toList_intercalate] at ih ⊢
    cases rest with
    | nil => simpa using hname
    | cons other rest =>
      simp only [List.map_cons, List.intercalate_cons_cons, List.flatMap_append] at ih ⊢
      rw [hname, ih]
      rfl

/-- The dotted name of a path is made of the names below the namespace. -/
theorem dottedId?_eq (hpath : Canonical path) (hroot : Canonical root) (hne : root ≠ "/") :
    dottedId? path root = if Below path root then some (".".intercalate (namesBelow root path)) else none := by
  split
  · rename_i hbelow
    have hsegments := hpath.isSegment_namesBelow root
    have hnonempty := intercalate_ne_empty (namesBelow_ne_nil hpath hroot hbelow) hsegments
    simp only [dottedId?, Text.dropStem?_eq_some_iff.2 (hbelow.eq_append hpath hroot hne), if_neg hnonempty]
    rw [replaceChar_intercalate fun name hname => (hsegments name hname).no_slash]
  · rename_i hbelow
    unfold dottedId?
    split
    · rename_i rest hrest
      have hcut := Text.dropStem?_eq_some_iff.1 hrest
      have hunder : isUnder path root := isUnder_iff.2 (.inr ⟨rest.toList, by simp [hcut]⟩)
      refine absurd ⟨hunder, ?_⟩ hbelow
      rintro rfl
      have hlength := congrArg (fun s : String => s.toList.length) hcut
      simp at hlength
    · rfl

theorem splitOn_intercalate {separator : String} {sep : Char} (hseparator : separator.toList = [sep])
    (hnames : names ≠ []) (h : ∀ name ∈ names, sep ∉ name.toList) :
    (separator.intercalate names).toList.splitOn sep = names.map String.toList := by
  rw [String.toList_intercalate, hseparator]
  refine List.splitOn_intercalate sep (fun cs hcs => ?_) (by simpa using hnames)
  obtain ⟨name, hname, rfl⟩ := List.mem_map.1 hcs
  exact h name hname

/-- Names without dots can be read off their dotted form. -/
theorem intercalate_dot_inj {a b : List String} (ha : a ≠ []) (hb : b ≠ [])
    (hadots : ∀ name ∈ a, '.' ∉ name.toList) (hbdots : ∀ name ∈ b, '.' ∉ name.toList) :
    ".".intercalate a = ".".intercalate b ↔ a = b := by
  refine ⟨fun h => ?_, congrArg _⟩
  have hsplit := congrArg (fun s : String => s.toList.splitOn '.') h
  have hdot : ".".toList = ['.'] := rfl
  simp only [splitOn_intercalate hdot ha hadots, splitOn_intercalate hdot hb hbdots] at hsplit
  exact (List.map_inj_right fun _ _ => String.toList_inj.1).1 hsplit

end Path

end TwinShell
