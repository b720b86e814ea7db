import TwinShell.Path

/-!
# Laws of paths

A path is below another when it goes on with a slash, and the parent of a path is what stands before its last slash. Both are facts about the characters alone, so they hold of every text; going from a path to its parent, step by step, reaches every path above it. Joining and resolving are about segments instead, and lead to paths in canonical form.
-/

namespace TwinShell

namespace Text

theorem pieces_eq_splitOn (sep : Char) (cs : List Char) : pieces sep cs = cs.splitOn sep := by
  induction cs with
  | nil => rfl
  | cons c cs ih =>
    rw [pieces, List.splitOn_cons_eq_if_modifyHead, ih]
    by_cases hc : c = sep
    · simp [hc]
    · obtain ⟨p, ps, hps⟩ := List.exists_cons_of_ne_nil (List.splitOn_ne_nil sep cs)
      simp [hc, hps]

theorem not_mem_of_mem_pieces {sep : Char} {cs p : List Char} (h : p ∈ pieces sep cs) : sep ∉ p := by
  induction cs generalizing p with
  | nil => simp_all [pieces]
  | cons c cs ih =>
    rw [pieces] at h
    split at h
    · rcases List.mem_cons.1 h with rfl | h
      · simp
      · exact ih h
    · rename_i hc
      split at h
      · simp_all [Ne.symm hc]
      · rename_i q qs hpieces
        rcases List.mem_cons.1 h with rfl | h
        · simp [ih (hpieces ▸ List.mem_cons_self), Ne.symm hc]
        · exact ih (hpieces ▸ List.mem_cons_of_mem _ h)

end Text

namespace Path

/-- A list of characters with a slash, cut at its last one. -/
theorem exists_last_slash {cs : List Char} (h : '/' ∈ cs) :
    ∃ xs segment, cs = xs ++ '/' :: segment ∧ '/' ∉ segment := by
  induction cs with
  | nil => cases h
  | cons c cs ih =>
    by_cases hcs : '/' ∈ cs
    · obtain ⟨xs, segment, rfl, hsegment⟩ := ih hcs
      exact ⟨c :: xs, segment, rfl, hsegment⟩
    · obtain rfl : c = '/' := by simpa [hcs, eq_comm] using h
      exact ⟨[], cs, rfl, hcs⟩

theorem parent_of_toList {path : String} {xs segment : List Char}
    (h : path.toList = xs ++ '/' :: segment) (hsegment : '/' ∉ segment) :
    parent path = if xs = [] then "/" else String.ofList xs := by
  have hpieces : (Text.pieces '/' path.toList).dropLast = xs.splitOn '/' := by
    rw [Text.pieces_eq_splitOn, h, List.splitOn_append_cons_self, List.splitOn_eq_singleton hsegment,
      List.dropLast_concat]
  simp only [parent, hpieces, List.intercalate_splitOn]

theorem isUnder_iff {path root : String} :
    isUnder path root ↔ path = root ∨ ∃ rest, path.toList = root.toList ++ '/' :: rest := by
  simp only [isUnder, Text.dropStem?, Bool.or_eq_true, beq_iff_eq]
  refine or_congr_right ?_
  constructor
  · intro h
    split at h
    · rename_i rest hrest
      split at hrest
      · rename_i hstem
        cases hrest
        obtain ⟨more, hmore⟩ := List.isPrefixOf_iff_prefix.1 hstem
        rw [← hmore, List.drop_left] at h
        cases more with
        | nil => simp [Text.startsWith] at h
        | cons c cs =>
          have hc : '/' = c := by simpa [Text.startsWith] using h
          exact ⟨cs, by rw [← hmore, hc]⟩
      · cases hrest
    · cases h
  · rintro ⟨rest, hrest⟩
    simp [hrest, Text.startsWith]

/-- What lies strictly below a path has its parent there too, one slash further up. -/
theorem parent_below {path root : String} {rest : List Char} (hroot : root ≠ "")
    (h : path.toList = root.toList ++ '/' :: rest) :
    ∃ more, (parent path).toList = root.toList ++ more ∧ more.length ≤ rest.length ∧
      (more = [] ∨ ∃ rest', more = '/' :: rest') := by
  obtain ⟨xs, segment, hcut, hsegment⟩ := exists_last_slash (List.mem_cons_self (a := '/') (l := rest))
  have hlength := congrArg List.length hcut
  simp only [List.length_cons, List.length_append] at hlength
  have hne : root.toList ++ xs ≠ [] := by
    rw [ne_eq, List.append_eq_nil_iff, String.toList_eq_nil_iff]
    exact fun h => hroot h.1
  refine ⟨xs, ?_, by omega, ?_⟩
  · rw [hcut, ← List.append_assoc] at h
    rw [parent_of_toList h hsegment, if_neg hne, String.toList_ofList]
  · cases xs with
    | nil => exact .inl rfl
    | cons c cs => exact .inr ⟨cs, by rw [List.cons_append, List.cons.injEq] at hcut; rw [hcut.1]⟩

/-- What goes over from every path to its parent goes over to every path above. -/
theorem of_isUnder {p : String → Prop} {path root : String} (hparent : ∀ path, p path → p (parent path))
    (hroot : root ≠ "") (hunder : isUnder path root) (hpath : p path) : p root := by
  rcases isUnder_iff.1 hunder with rfl | ⟨rest, hrest⟩
  · exact hpath
  -- The induction is on the number of characters below the root.
  generalize hn : rest.length = n
  induction n using Nat.strongRecOn generalizing path rest with
  | ind n ih =>
    obtain ⟨more, hmore, hlength, hcases⟩ := parent_below hroot hrest
    rcases hcases with rfl | ⟨rest', rfl⟩
    · rw [List.append_nil, String.toList_inj] at hmore
      exact hmore ▸ hparent path hpath
    · rw [List.length_cons] at hlength
      exact ih rest'.length (by omega) (isUnder_iff.2 (.inr ⟨rest', hmore⟩)) (hparent path hpath)
        rest' hmore rfl

theorem isUnder_refl (path : String) : isUnder path path := isUnder_iff.2 (.inl rfl)

theorem isUnder_trans {a b c : String} (hab : isUnder a b) (hbc : isUnder b c) : isUnder a c := by
  rcases isUnder_iff.1 hab with rfl | ⟨rest, hrest⟩
  · exact hbc
  · rcases isUnder_iff.1 hbc with rfl | ⟨rest', hrest'⟩
    · exact hab
    · exact isUnder_iff.2 (.inr ⟨rest' ++ '/' :: rest, by rw [hrest, hrest']; simp⟩)

/-- The parent of what lies strictly below a path is not above it. -/
theorem isUnder_parent {path root : String} (hroot : root ≠ "") (hunder : isUnder path root)
    (hne : path ≠ root) : isUnder (parent path) root := by
  rcases isUnder_iff.1 hunder with rfl | ⟨rest, hrest⟩
  · exact absurd rfl hne
  · obtain ⟨more, hmore, -, hcases⟩ := parent_below hroot hrest
    rcases hcases with rfl | ⟨rest', rfl⟩
    · rw [List.append_nil, String.toList_inj] at hmore
      exact hmore ▸ isUnder_refl _
    · exact isUnder_iff.2 (.inr ⟨rest', hmore⟩)

/-- A path lies below its parent, unless that is `/`. -/
theorem isUnder_self_parent (path : String) : parent path = "/" ∨ isUnder path (parent path) := by
  by_cases hslash : '/' ∈ path.toList
  · obtain ⟨xs, segment, hcut, hsegment⟩ := exists_last_slash hslash
    rw [parent_of_toList hcut hsegment]
    split
    · exact .inl rfl
    · exact .inr (isUnder_iff.2 (.inr ⟨segment, by rw [hcut, String.toList_ofList]⟩))
  · left
    rw [parent, Text.pieces_eq_splitOn, List.splitOn_eq_singleton hslash]
    rfl

theorem length_le_of_isUnder {path root : String} (h : isUnder path root) :
    root.toList.length ≤ path.toList.length := by
  rcases isUnder_iff.1 h with rfl | ⟨rest, hrest⟩
  · exact Nat.le_refl _
  · rw [hrest, List.length_append]
    omega

theorem length_lt_of_isUnder {path root : String} (h : isUnder path root) (hne : path ≠ root) :
    root.toList.length < path.toList.length := by
  rcases isUnder_iff.1 h with rfl | ⟨rest, hrest⟩
  · exact absurd rfl hne
  · rw [hrest, List.length_append, List.length_cons]
    omega

theorem isUnder_antisymm {a b : String} (hab : isUnder a b) (hba : isUnder b a) : a = b := by
  refine Classical.byContradiction fun hne => ?_
  have hlt := length_lt_of_isUnder hab hne
  have hle := length_le_of_isUnder hba
  omega

/-- The paths above a path lie below each other. -/
theorem isUnder_or_isUnder {path a b : String} (ha : isUnder path a) (hb : isUnder path b) :
    isUnder a b ∨ isUnder b a := by
  rcases isUnder_iff.1 ha with rfl | ⟨as, has⟩
  · exact .inl hb
  rcases isUnder_iff.1 hb with rfl | ⟨bs, hbs⟩
  · exact .inr ha
  rw [hbs, List.append_eq_append_iff] at has
  rcases has with ⟨more, hmore, hcons⟩ | ⟨more, hmore, hcons⟩
  · cases more with
    | nil => exact .inl (isUnder_iff.2 (.inl (String.toList_inj.1 (by simpa using hmore))))
    | cons c cs =>
      obtain ⟨rfl, -⟩ := List.cons.inj hcons
      exact .inl (isUnder_iff.2 (.inr ⟨cs, hmore⟩))
  · cases more with
    | nil => exact .inr (isUnder_iff.2 (.inl (String.toList_inj.1 (by simpa using hmore))))
    | cons c cs =>
      obtain ⟨rfl, -⟩ := List.cons.inj hcons
      exact .inr (isUnder_iff.2 (.inr ⟨cs, hmore⟩))

theorem eq_root_of_parent_eq {path : String} (h : parent path = path) : path = "/" := by
  by_cases hslash : '/' ∈ path.toList
  · obtain ⟨xs, segment, hcut, hsegment⟩ := exists_last_slash hslash
    rw [parent_of_toList hcut hsegment] at h
    split at h
    · exact h.symm
    · have hlength := congrArg (fun s : String => s.toList.length) h
      simp only [String.toList_ofList, hcut, List.length_append, List.length_cons] at hlength
      omega
  · rw [parent, Text.pieces_eq_splitOn, List.splitOn_eq_singleton hslash] at h
    exact h.symm

/-! ### Namespaces -/

theorem isNamespace_iff {path : String} : isNamespace path ↔ path ∈ namespaces :=
  List.contains_iff_mem

theorem isNamespace_parent {path : String} (h : isNamespace path) : isNamespace (parent path) := by
  have hall : ∀ path ∈ namespaces, isNamespace (parent path) := by decide
  exact hall path (isNamespace_iff.1 h)

theorem isNamespace_of_isUnder {path root : String} (hroot : root ≠ "") (hunder : isUnder path root)
    (h : isNamespace path) : isNamespace root :=
  of_isUnder (p := fun path => isNamespace path) (fun _ => isNamespace_parent) hroot hunder h

theorem isNamespace_selection : ¬isNamespace selection := by decide

/-- No two namespaces have the same last segment. -/
theorem eq_of_baseName_eq {a b : String} (ha : isNamespace a) (hb : isNamespace b)
    (h : baseName a = baseName b) : a = b := by
  have hall : ∀ a ∈ namespaces, ∀ b ∈ namespaces, baseName a = baseName b → a = b := by decide +kernel
  exact hall a (isNamespace_iff.1 ha) b (isNamespace_iff.1 hb) h

/-! ### Segments -/

theorem toList_ofSegments (segments : List String) :
    (ofSegments segments).toList = '/' :: ['/'].intercalate (segments.map String.toList) := by
  rw [ofSegments, String.toList_append, String.toList_intercalate]
  rfl

theorem split_ofSegments {segs : List String} (hsegs : ∀ s ∈ segs, '/' ∉ s.toList) (hne : segs ≠ []) :
    Text.split '/' (ofSegments segs) = "" :: segs := by
  have hmap : ∀ cs ∈ segs.map String.toList, '/' ∉ cs := by
    intro cs hcs
    obtain ⟨s, hs, rfl⟩ := List.mem_map.1 hcs
    exact hsegs s hs
  rw [Text.split, Text.pieces_eq_splitOn, toList_ofSegments, ← List.nil_append ('/' :: _),
    List.splitOn_append_cons_self, List.splitOn_intercalate '/' hmap (by simp [hne])]
  simp [Function.comp_def]

theorem segments_ofSegments {segs : List String} (hsegs : ∀ s ∈ segs, '/' ∉ s.toList) :
    segments (ofSegments segs) = segs.filter (· ≠ "") := by
  by_cases hne : segs = []
  · subst hne
    decide
  · rw [segments, split_ofSegments hsegs hne]
    simp

theorem segments_append_slash (a b : String) : segments (a ++ "/" ++ b) = segments a ++ segments b := by
  have htoList : (a ++ "/" ++ b).toList = a.toList ++ '/' :: b.toList := by simp
  simp only [segments, Text.split, Text.pieces_eq_splitOn, htoList, List.splitOn_append_cons_self,
    List.map_append, List.filter_append]

theorem not_slash_of_mem_segments {path s : String} (h : s ∈ segments path) : '/' ∉ s.toList := by
  obtain ⟨cs, hcs, rfl⟩ := List.mem_map.1 (List.mem_filter.1 h).1
  rw [String.toList_ofList]
  exact Text.not_mem_of_mem_pieces hcs

/-- A segment of a path in canonical form. -/
structure IsSegment (s : String) : Prop where
  ne_empty : s ≠ ""
  no_slash : '/' ∉ s.toList
  ne_dot : s ≠ "."
  ne_dots : s ≠ ".."

/-- An absolute path: `/`, or segments joined by slashes, none of them empty, `.` or `..`. -/
def Canonical (path : String) : Prop := ∃ segs, path = ofSegments segs ∧ ∀ s ∈ segs, IsSegment s

theorem segments_of_isSegment {segs : List String} (h : ∀ s ∈ segs, IsSegment s) :
    segments (ofSegments segs) = segs := by
  rw [segments_ofSegments fun s hs => (h s hs).no_slash, List.filter_eq_self]
  exact fun s hs => decide_eq_true (h s hs).ne_empty

theorem toList_child (segs : List String) (s : String) : (ofSegments (segs ++ [s])).toList =
    (if segs = [] then [] else (ofSegments segs).toList) ++ '/' :: s.toList := by
  split
  · rename_i hnil
    simp [hnil, toList_ofSegments]
  · rename_i hne
    rw [ofSegments, String.intercalate_append_of_ne_nil hne (by simp), String.intercalate_singleton,
      ofSegments]
    simp

theorem parent_ofSegments (segs : List String) {s : String} (hs : '/' ∉ s.toList) :
    parent (ofSegments (segs ++ [s])) = ofSegments segs := by
  rw [parent_of_toList (toList_child segs s) hs]
  by_cases hnil : segs = []
  · subst hnil
    rfl
  · have hne : (ofSegments segs).toList ≠ [] := by simp [toList_ofSegments]
    rw [if_neg hnil, if_neg hne, String.ofList_toList]

theorem baseName_ofSegments (segs : List String) {s : String} (hs : '/' ∉ s.toList)
    (hsegs : ∀ t ∈ segs, '/' ∉ t.toList) : baseName (ofSegments (segs ++ [s])) = s := by
  have hall : ∀ t ∈ segs ++ [s], '/' ∉ t.toList := by
    intro t ht
    rcases List.mem_append.1 ht with ht | ht
    · exact hsegs t ht
    · exact List.mem_singleton.1 ht ▸ hs
  rw [baseName, split_ofSegments hall (by simp), ← List.cons_append, List.getLast?_concat,
    Option.getD_some]

theorem canonical_iff {path : String} : Canonical path ↔
    clean path = path ∧ ∀ s ∈ segments path, s ≠ "." ∧ s ≠ ".." := by
  constructor
  · rintro ⟨segs, rfl, hsegs⟩
    rw [clean, segments_of_isSegment hsegs]
    exact ⟨rfl, fun s hs => ⟨(hsegs s hs).ne_dot, (hsegs s hs).ne_dots⟩⟩
  · rintro ⟨hclean, hdots⟩
    refine ⟨segments path, hclean.symm, fun s hs => ?_⟩
    exact ⟨by simpa using (List.mem_filter.1 hs).2, not_slash_of_mem_segments hs, (hdots s hs).1,
      (hdots s hs).2⟩

instance (path : String) : Decidable (Canonical path) := decidable_of_iff _ canonical_iff.symm

namespace Canonical

variable {path : String}

theorem root : Canonical "/" := ⟨[], rfl, nofun⟩

theorem ne_empty (h : Canonical path) : path ≠ "" := by
  obtain ⟨segs, rfl, -⟩ := h
  rw [ne_eq, ← String.toList_eq_nil_iff, toList_ofSegments]
  exact List.cons_ne_nil _ _

theorem ne_selection (h : Canonical path) : path ≠ selection := by
  obtain ⟨segs, rfl, -⟩ := h
  intro heq
  have hhead := congrArg (fun s : String => s.toList.head?) heq
  rw [toList_ofSegments] at hhead
  cases hhead

/-- A path in canonical form other than `/` is the child of its parent. -/
theorem eq_child (h : Canonical path) (hroot : path ≠ "/") :
    ∃ segs s, path = ofSegments (segs ++ [s]) ∧ (∀ t ∈ segs, IsSegment t) ∧ IsSegment s := by
  obtain ⟨segs, rfl, hsegs⟩ := h
  have hne : segs ≠ [] := by rintro rfl; exact hroot rfl
  refine ⟨segs.dropLast, segs.getLast hne, by rw [List.dropLast_concat_getLast], ?_, ?_⟩
  · exact fun t ht => hsegs t (List.dropLast_subset segs ht)
  · exact hsegs _ (List.getLast_mem hne)

theorem parent (h : Canonical path) : Canonical (Path.parent path) := by
  by_cases hroot : path = "/"
  · rw [hroot]
    exact ⟨[], by decide, nofun⟩
  · obtain ⟨segs, s, rfl, hsegs, hs⟩ := h.eq_child hroot
    exact ⟨segs, parent_ofSegments segs hs.no_slash, hsegs⟩

theorem isSegment_baseName (h : Canonical path) (hroot : path ≠ "/") :
    IsSegment (baseName path) := by
  obtain ⟨segs, s, rfl, hsegs, hs⟩ := h.eq_child hroot
  rwa [baseName_ofSegments segs hs.no_slash fun t ht => (hsegs t ht).no_slash]

end Canonical

/-! ### Joining and resolving -/

theorem join_eq (parent name : String) :
    join parent name = ofSegments (segments parent ++ segments name) := by
  rw [join, clean, segments_append_slash]

theorem join_ne_empty (parent name : String) : join parent name ≠ "" := by
  rw [join_eq, ne_eq, ← String.toList_eq_nil_iff, toList_ofSegments]
  exact List.cons_ne_nil _ _

theorem segments_of_noSlash {s : String} (hs : '/' ∉ s.toList) (hne : s ≠ "") : segments s = [s] := by
  rw [segments, Text.split, Text.pieces_eq_splitOn, List.splitOn_eq_singleton hs]
  simp [hne]

/-- The child of a path with the given name, as a list of segments. -/
theorem join_child {segs : List String} (hsegs : ∀ t ∈ segs, IsSegment t) {s : String}
    (hs : '/' ∉ s.toList) (hne : s ≠ "") : join (ofSegments segs) s = ofSegments (segs ++ [s]) := by
  rw [join_eq, segments_of_isSegment hsegs, segments_of_noSlash hs hne]

theorem parent_join {parent name : String} (hparent : Canonical parent) (hname : '/' ∉ name.toList)
    (hne : name ≠ "") : Path.parent (join parent name) = parent := by
  obtain ⟨segs, rfl, hsegs⟩ := hparent
  rw [join_child hsegs hname hne, parent_ofSegments segs hname]

theorem join_ne_selection (parent name : String) : join parent name ≠ selection := by
  rw [join_eq, ne_eq, ← String.toList_inj, toList_ofSegments]
  exact fun h => absurd (List.cons.inj h).1 (by decide)

theorem not_isUnder_join_selection (parent name : String) : ¬isUnder selection (join parent name) := by
  intro hunder
  rcases isUnder_iff.1 hunder with heq | ⟨rest, hrest⟩
  · exact join_ne_selection parent name heq.symm
  · have hlength := congrArg List.length hrest
    rw [List.length_append, List.length_cons, show selection.toList.length = 1 from rfl] at hlength
    exact join_ne_empty parent name
      (String.toList_eq_nil_iff.1 (List.eq_nil_of_length_eq_zero (by omega)))

/-- The last segment of any path has no slash. -/
theorem not_slash_baseName (path : String) : '/' ∉ (baseName path).toList := by
  unfold baseName
  cases h : (Text.split '/' path).getLast? with
  | none =>
    rw [List.getLast?_eq_none_iff, Text.split, List.map_eq_nil_iff, Text.pieces_eq_splitOn] at h
    exact absurd h (List.splitOn_ne_nil _ _)
  | some s =>
    obtain ⟨cs, hcs, rfl⟩ := List.mem_map.1 (List.mem_of_getLast? h)
    rw [Option.getD_some, String.toList_ofList]
    exact Text.not_mem_of_mem_pieces hcs

theorem baseName_join {parent name : String} (hparent : Canonical parent) (hname : '/' ∉ name.toList)
    (hne : name ≠ "") : baseName (join parent name) = name := by
  obtain ⟨segs, rfl, hsegs⟩ := hparent
  rw [join_child hsegs hname hne, baseName_ofSegments segs hname fun t ht => (hsegs t ht).no_slash]

/-- A path does not lie below its child. -/
theorem not_isUnder_join {parent name : String} (hparent : Canonical parent)
    (hname : '/' ∉ name.toList) (hne : name ≠ "") : ¬isUnder parent (join parent name) := by
  intro hunder
  have hle := length_le_of_isUnder hunder
  obtain ⟨segs, rfl, hsegs⟩ := hparent
  have hpos : 0 < name.toList.length := List.length_pos_iff.2 (mt String.toList_eq_nil_iff.1 hne)
  rw [join_child hsegs hname hne, toList_child, List.length_append, List.length_cons] at hle
  split at hle
  · rename_i hnil
    rw [hnil, show (ofSegments []).toList.length = 1 from rfl] at hle
    omega
  · omega

theorem Canonical.not_isUnder_parent {path : String} (h : Canonical path) (hroot : path ≠ "/") :
    ¬isUnder (Path.parent path) path := by
  obtain ⟨segs, s, rfl, hsegs, hs⟩ := h.eq_child hroot
  rw [parent_ofSegments segs hs.no_slash, ← join_child hsegs hs.no_slash hs.ne_empty]
  exact not_isUnder_join ⟨segs, rfl, hsegs⟩ hs.no_slash hs.ne_empty

/-- Of the children of a path at most one lies above another path. -/
theorem Canonical.eq_of_isUnder {path a b : String} (ha : Canonical a) (hb : Canonical b)
    (hroot : Path.parent a ≠ "/") (hparent : Path.parent a = Path.parent b) (hpa : isUnder path a)
    (hpb : isUnder path b) : a = b := by
  have haroot : a ≠ "/" := by
    rintro rfl
    exact hroot rfl
  have hbroot : b ≠ "/" := by
    rintro rfl
    exact hroot hparent
  refine Classical.byContradiction fun hne => ?_
  rcases isUnder_or_isUnder hpa hpb with hab | hba
  · exact hb.not_isUnder_parent hbroot (hparent ▸ isUnder_parent hb.ne_empty hab hne)
  · exact ha.not_isUnder_parent haroot (hparent ▸ isUnder_parent ha.ne_empty hba (Ne.symm hne))

theorem isNamespace_parent_join {parent name : String} (hparent : isNamespace parent)
    (hname : '/' ∉ name.toList) : isNamespace (Path.parent (join parent name)) := by
  have hall : ∀ path ∈ namespaces, Canonical path ∧ isNamespace (Path.parent (join path "")) := by
    decide +kernel
  obtain ⟨hcanonical, hempty⟩ := hall parent (isNamespace_iff.1 hparent)
  by_cases hne : name = ""
  · rw [hne]
    exact hempty
  · rw [parent_join hcanonical hname hne]
    exact hparent

/-- A word that can become a segment. -/
structure IsWord (s : String) : Prop where
  no_slash : '/' ∉ s.toList
  ne_dot : s ≠ "."
  ne_dots : s ≠ ".."

theorem canonical_clean {words : List String} (h : ∀ s ∈ words, IsWord s) :
    Canonical (clean (ofSegments words)) := by
  rw [clean, segments_ofSegments fun s hs => (h s hs).no_slash]
  refine ⟨_, rfl, fun s hs => ?_⟩
  obtain ⟨hs, hne⟩ := List.mem_filter.1 hs
  exact ⟨by simpa using hne, (h s hs).no_slash, (h s hs).ne_dot, (h s hs).ne_dots⟩

theorem isWord_step {sofar : List String} {word : String} (hsofar : ∀ s ∈ sofar, IsWord s)
    (hword : '/' ∉ word.toList) : ∀ s ∈ step sofar word, IsWord s := by
  intro s hs
  unfold step at hs
  split at hs
  · exact hsofar s hs
  · rename_i hdot
    split at hs
    · exact hsofar s (List.dropLast_subset sofar hs)
    · rename_i hdots
      rcases List.mem_append.1 hs with hs | hs
      · exact hsofar s hs
      · exact List.mem_singleton.1 hs ▸ ⟨hword, hdot, hdots⟩

theorem isWord_foldl_step {words sofar : List String} (hsofar : ∀ s ∈ sofar, IsWord s)
    (hwords : ∀ word ∈ words, '/' ∉ word.toList) : ∀ s ∈ words.foldl step sofar, IsWord s := by
  induction words generalizing sofar with
  | nil => exact hsofar
  | cons word words ih =>
    exact ih (isWord_step hsofar (hwords word List.mem_cons_self))
      fun w hw => hwords w (List.mem_cons_of_mem _ hw)

theorem isWord_expandFirst {words : List String} (h : ∀ s ∈ words, IsWord s) :
    ∀ s ∈ expandFirst words, IsWord s := by
  cases words with
  | nil => exact nofun
  | cons first rest =>
    intro s hs
    rcases List.mem_cons.1 hs with rfl | hs
    · unfold fullName
      split
      · exact ⟨by decide, by decide, by decide⟩
      split
      · exact ⟨by decide, by decide, by decide⟩
      split
      · exact ⟨by decide, by decide, by decide⟩
      exact h first List.mem_cons_self
    · exact h s (List.mem_cons_of_mem _ hs)

theorem Canonical.isWord {path : String} (h : Canonical path) : ∀ s ∈ segments path, IsWord s := by
  obtain ⟨segs, rfl, hsegs⟩ := h
  rw [segments_of_isSegment hsegs]
  exact fun s hs => ⟨(hsegs s hs).no_slash, (hsegs s hs).ne_dot, (hsegs s hs).ne_dots⟩

theorem not_slash_of_mem_split {text word : String} (h : word ∈ Text.split '/' text) :
    '/' ∉ word.toList := by
  obtain ⟨cs, hcs, rfl⟩ := List.mem_map.1 h
  rw [String.toList_ofList]
  exact Text.not_mem_of_mem_pieces hcs

/-- A path resolved where everything is in canonical form is so too, unless it is the sign for the selection. -/
theorem canonical_resolve {raw current previous : String} (hcurrent : Canonical current)
    (hprevious : Canonical previous) (h : resolve raw current previous ≠ selection) :
    Canonical (resolve raw current previous) := by
  unfold resolve at h ⊢
  dsimp only at h ⊢
  generalize (if raw = "" then "." else raw) = raw at h ⊢
  split at h
  · exact absurd rfl h
  · rename_i hsel
    split at h
    · rename_i hminus
      rw [if_neg hsel, if_pos hminus]
      exact hprevious
    · rename_i hminus
      rw [if_neg hsel, if_neg hminus]
      refine canonical_clean (isWord_expandFirst (isWord_foldl_step ?_ fun _ => not_slash_of_mem_split))
      split
      · exact nofun
      · exact hcurrent.isWord

theorem foldl_step_of_isSegment {words sofar : List String} (h : ∀ s ∈ words, IsSegment s) :
    words.foldl step sofar = sofar ++ words := by
  induction words generalizing sofar with
  | nil => simp
  | cons word words ih =>
    have hword := h word List.mem_cons_self
    have hstep : step sofar word = sofar ++ [word] := by
      rw [step, if_neg hword.ne_dot, if_neg hword.ne_dots]
    rw [List.foldl_cons, hstep, ih fun s hs => h s (List.mem_cons_of_mem _ hs), List.append_assoc,
      List.singleton_append]

/-- A path in canonical form whose first segment is no abbreviation means itself everywhere. -/
theorem resolve_ofSegments {segs : List String} (hne : segs ≠ []) (hsegs : ∀ s ∈ segs, IsSegment s)
    (hfull : expandFirst segs = segs) (current previous : String) :
    resolve (ofSegments segs) current previous = ofSegments segs := by
  have hcanonical : Canonical (ofSegments segs) := ⟨segs, rfl, hsegs⟩
  have hslashes : ∀ cs ∈ segs.map String.toList, '/' ∉ cs := by
    intro cs hcs
    obtain ⟨s, hs, rfl⟩ := List.mem_map.1 hcs
    exact (hsegs s hs).no_slash
  have hminus : ofSegments segs ≠ "-" := by
    intro heq
    have hhead := congrArg (fun s : String => s.toList.head?) heq
    rw [toList_ofSegments] at hhead
    cases hhead
  have hsplit : Text.split '/' (String.ofList (['/'].intercalate (segs.map String.toList))) = segs := by
    rw [Text.split, Text.pieces_eq_splitOn, String.toList_ofList,
      List.splitOn_intercalate '/' hslashes (by simp [hne])]
    simp [Function.comp_def]
  unfold resolve
  rw [if_neg hcanonical.ne_empty]
  simp only [if_neg hcanonical.ne_selection, if_neg hminus, toList_ofSegments, hsplit,
    foldl_step_of_isSegment hsegs, List.nil_append, hfull, clean, segments_of_isSegment hsegs]

end Path

end TwinShell
