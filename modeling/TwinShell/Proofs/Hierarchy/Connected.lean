import TwinShell.Proofs.Hierarchy.Renaming

/-!
# Which operations keep the tree connected

A store is closed when every object hangs on a namespace or on another object. Creating an object asks for its parent, but a move only asks for the object it moves (and linking for its destination), and adding a template asks for nothing. What has to hold beforehand, so that the store is still closed afterwards, is stated here exactly. The destination of a move has to be there and must not be moved away itself; nothing may hang on a namespace inside the moved subtree, which stays behind; and when an object is put where another one still waits to be moved, and so is carried on with it, its children must be carried on too.
-/

namespace TwinShell

namespace Move

variable {m : Move} {s s' : Store}

/-- An object comes to lie where another one still waits to be moved. -/
structure CarriedOn (m : Move) (s : Store) (key : String) : Prop where
  contains : s.objects.contains (m.movedPath key)
  isUnder : Path.isUnder (m.movedPath key) m.source
  lt : key < m.movedPath key

/-- What keeps the tree connected under a move. -/
structure KeepsTree (m : Move) (s : Store) : Prop where
  dest_stays : Path.isNamespace m.dest ∨
    s.objects.contains m.dest ∧ ¬Path.isUnder m.dest m.source
  hangs_on_object : ∀ key, s.objects.contains key → Path.isUnder key m.source → key ≠ m.source →
    s.objects.contains (Path.parent key)
  children_follow : ∀ key, s.objects.contains key → Path.isUnder key m.source → key ≠ m.source →
    m.CarriedOn s (Path.parent key) → m.CarriedOn s key

theorem contains_after (h : m.Makes s s') {path : String} : s'.objects.contains path ↔
    (s.objects.contains path ∧ ¬Path.isUnder path m.source) ∨
    ∃ key, s.objects.contains key ∧ Path.isUnder key m.source ∧ path = m.movedPath key ∧
      ¬m.CarriedOn s key := by
  rw [h.objects_eq, contains_result, Store.contains_movedObjects h.target_ne_source]
  refine or_congr_right (exists_congr fun key => and_congr_right fun _ => and_congr_right fun _ => ?_)
  constructor
  · rintro ⟨rfl, hon⟩
    exact ⟨rfl, fun hcarried => hon ⟨hcarried.contains, hcarried.isUnder, hcarried.lt⟩⟩
  · rintro ⟨rfl, hon⟩
    exact ⟨rfl, fun hcarried => hon ⟨hcarried.1, hcarried.2.1, hcarried.2.2⟩⟩

/-! ### Where the target lies -/

theorem canonical_dest (hpaths : ∀ path ∈ m.paths, Path.Canonical path) : Path.Canonical m.dest := by
  cases m with
  | link source dest slot => exact hpaths dest (by simp [paths])
  | unlink source dest =>
    cases dest with
    | none => exact (by decide : Path.Canonical Path.stray)
    | some dest => exact hpaths dest (by simp [paths])

theorem isSegment_baseName (h : m.Makes s s') (hpaths : ∀ path ∈ m.paths, Path.Canonical path) :
    Path.IsSegment (Path.baseName m.source) := by
  have hsource : Path.Canonical m.source := by cases m <;> exact hpaths _ (by simp [paths, source])
  refine hsource.isSegment_baseName fun hroot => ?_
  exact absurd (hroot ▸ h.isUnder_physical) (by decide)

theorem parent_target (h : m.Makes s s') (hpaths : ∀ path ∈ m.paths, Path.Canonical path) :
    Path.parent m.target = m.dest :=
  Path.parent_join (canonical_dest hpaths) (isSegment_baseName h hpaths).no_slash
    (isSegment_baseName h hpaths).ne_empty

/-- The target of a moved namespace is no namespace. -/
theorem target_not_isNamespace (h : m.Makes s s') (hpaths : ∀ path ∈ m.paths, Path.Canonical path)
    (hsource : Path.isNamespace m.source) : ¬Path.isNamespace m.target := by
  intro htarget
  have hbase : Path.baseName m.target = Path.baseName m.source :=
    Path.baseName_join (canonical_dest hpaths) (isSegment_baseName h hpaths).no_slash
      (isSegment_baseName h hpaths).ne_empty
  exact h.target_ne_source (Path.eq_of_baseName_eq htarget hsource hbase)

/-- What exists below a free target shows that the target is a namespace. -/
theorem isNamespace_target (hclosed : s.Closed) (h : m.Makes s s') {path : String}
    (hunder : Path.isUnder path m.target) (hpath : s.Exists path) : Path.isNamespace m.target :=
  (hclosed.exists_above h.target_ne_empty hunder hpath).resolve_right h.target_free

theorem parent_movedPath (h : m.Makes s s') {key : String} (hunder : Path.isUnder key m.source)
    (hne : key ≠ m.source) : Path.parent (m.movedPath key) = m.movedPath (Path.parent key) :=
  Store.parent_movedPath h.source_ne_empty h.target_ne_empty hunder hne

/-! ### Moves -/

/-- Nothing exists where the objects below a moved namespace come to lie. -/
theorem not_exists_movedPath (hclosed : s.Closed) (h : m.Makes s s')
    (hpaths : ∀ path ∈ m.paths, Path.Canonical path) (hsource : Path.isNamespace m.source)
    {key : String} (hunder : Path.isUnder key m.source) : ¬s.Exists (m.movedPath key) :=
  fun hexists => target_not_isNamespace h hpaths hsource
    (isNamespace_target hclosed h (Store.isUnder_movedPath hunder) hexists)

/-- The target hangs on the destination, which is not itself among the moved paths. -/
theorem dest_stays_of_closed (hpaths : ∀ path ∈ m.paths, Path.Canonical path) (h : m.Makes s s')
    (hafter : s'.Closed) :
    Path.isNamespace m.dest ∨ s.objects.contains m.dest ∧ ¬Path.isUnder m.dest m.source := by
  have hmoved : m.movedPath m.source = m.target := Store.movedPath_source _ _
  have htarget : s'.objects.contains m.target := by
    refine (contains_after h).2 (.inr ⟨m.source, h.contains_source, Path.isUnder_refl _,
      hmoved.symm, fun hcarried => h.target_free ?_⟩)
    rw [← hmoved]
    exact hcarried.contains
  have hdest := Store.parentExists_iff.1 (hafter m.target htarget)
  rw [parent_target h hpaths] at hdest
  refine hdest.imp_right fun hstored => ?_
  rcases (contains_after h).1 hstored with hold | ⟨key, -, hunder, heq, -⟩
  · exact hold
  · have hsegment := isSegment_baseName h hpaths
    have hbelow : Path.isUnder m.dest m.target := by
      rw [heq]
      exact Store.isUnder_movedPath hunder
    exact absurd hbelow
      (Path.not_isUnder_join (canonical_dest hpaths) hsegment.no_slash hsegment.ne_empty)

/-- An object that hangs on a namespace inside the moved subtree loses it. -/
theorem hangs_on_object_of_closed (hclosed : s.Closed)
    (hpaths : ∀ path ∈ m.paths, Path.Canonical path) (h : m.Makes s s') (hafter : s'.Closed)
    {key : String} (hkey : s.objects.contains key) (hunder : Path.isUnder key m.source)
    (hne : key ≠ m.source) : s.objects.contains (Path.parent key) := by
  rcases Store.parentExists_iff.1 (hclosed key hkey) with hspace | hstored
  · have hparent := Path.isUnder_parent h.source_ne_empty hunder hne
    have hsource := Path.isNamespace_of_isUnder h.source_ne_empty hparent hspace
    have hmoved : s'.objects.contains (m.movedPath key) := by
      refine (contains_after h).2 (.inr ⟨key, hkey, hunder, rfl, fun hcarried => ?_⟩)
      exact not_exists_movedPath hclosed h hpaths hsource hunder (.inr hcarried.contains)
    have hfree := not_exists_movedPath hclosed h hpaths hsource hparent
    have hexists := Store.parentExists_iff.1 (hafter _ hmoved)
    rw [parent_movedPath h hunder hne] at hexists
    rcases hexists with hexists | hexists
    · exact absurd (.inl hexists) hfree
    · rcases (contains_after h).1 hexists with ⟨hold, -⟩ | ⟨other, hother, hunder', heq, -⟩
      · exact absurd (.inr hold) hfree
      · rw [Store.movedPath_inj hparent hunder' heq]
        exact hother
  · exact hstored

/-- The child of an object that is carried on would otherwise stay behind without a parent. -/
theorem children_follow_of_closed (hclosed : s.Closed)
    (hpaths : ∀ path ∈ m.paths, Path.Canonical path) (h : m.Makes s s') (hafter : s'.Closed)
    {key : String} (hkey : s.objects.contains key) (hunder : Path.isUnder key m.source)
    (hne : key ≠ m.source) (hcarried : m.CarriedOn s (Path.parent key)) : m.CarriedOn s key := by
  refine Classical.byContradiction fun hstays => ?_
  have hparent := Path.isUnder_parent h.source_ne_empty hunder hne
  have hmoved : s'.objects.contains (m.movedPath key) :=
    (contains_after h).2 (.inr ⟨key, hkey, hunder, rfl, hstays⟩)
  have hexists := Store.parentExists_iff.1 (hafter _ hmoved)
  rw [parent_movedPath h hunder hne] at hexists
  rcases hexists with hspace | hstored
  · have hsource := Path.isNamespace_of_isUnder h.source_ne_empty hcarried.isUnder hspace
    exact not_exists_movedPath hclosed h hpaths hsource hparent (.inl hspace)
  · rcases (contains_after h).1 hstored with ⟨-, hout⟩ | ⟨other, -, hunder', heq, hother⟩
    · exact hout hcarried.isUnder
    · rw [← Store.movedPath_inj hparent hunder' heq] at hother
      exact hother hcarried

theorem closed_of_keepsTree (hclosed : s.Closed) (hpaths : ∀ path ∈ m.paths, Path.Canonical path)
    (h : m.Makes s s') (hkeeps : m.KeepsTree s) : s'.Closed := by
  intro path hpath
  rw [Store.parentExists_iff]
  rcases (contains_after h).1 hpath with ⟨hold, hout⟩ | ⟨key, hkey, hunder, rfl, hstays⟩
  · -- What lies outside the subtree hangs on something outside it.
    refine (Store.parentExists_iff.1 (hclosed path hold)).imp_right fun hparent => ?_
    refine (contains_after h).2 (.inl ⟨hparent, fun hunder => hout ?_⟩)
    rcases Path.isUnder_self_parent path with hroot | hself
    · exact absurd (hroot ▸ Path.isUnder_trans hunder h.isUnder_physical) (by decide)
    · exact Path.isUnder_trans hself hunder
  · by_cases hne : key = m.source
    · have hmoved : m.movedPath key = m.target := hne ▸ Store.movedPath_source _ _
      rw [hmoved, parent_target h hpaths]
      exact hkeeps.dest_stays.imp_right fun hdest => (contains_after h).2 (.inl hdest)
    · rw [parent_movedPath h hunder hne]
      refine .inr ((contains_after h).2 (.inr ⟨_, hkeeps.hangs_on_object key hkey hunder hne,
        Path.isUnder_parent h.source_ne_empty hunder hne, rfl, fun hcarried => hstays ?_⟩))
      exact hkeeps.children_follow key hkey hunder hne hcarried

/-- A successful move keeps the tree connected exactly in this case. -/
theorem closed_iff_keepsTree (hclosed : s.Closed) (hpaths : ∀ path ∈ m.paths, Path.Canonical path)
    (hrun : m.run s = .ok s') : s'.Closed ↔ m.KeepsTree s := by
  have h := makes hrun
  refine ⟨fun hafter => ⟨dest_stays_of_closed hpaths h hafter, ?_, ?_⟩,
    closed_of_keepsTree hclosed hpaths h⟩
  · exact fun key hkey hunder hne => hangs_on_object_of_closed hclosed hpaths h hafter hkey hunder hne
  · exact fun key hkey hunder hne => children_follow_of_closed hclosed hpaths h hafter hkey hunder hne

end Move

namespace Store

variable {s s' : Store}

/-! ### Other operations -/

theorem closed_insert (hclosed : s.Closed) {path : String} {object : Object} :
    Closed ⟨s.objects.insert path object⟩ ↔ s.parentExists path := by
  simp only [Closed, Dict.contains_insert, parentExists_iff, Exists]
  constructor
  · intro h
    rcases h path (.inl rfl) with hspace | heq | hstored
    · exact .inl hspace
    · rw [heq, Path.eq_root_of_parent_eq heq]
      exact .inl (by decide)
    · exact .inr hstored
  · rintro hparent key (rfl | hkey)
    · exact hparent.imp_right .inr
    · exact (parentExists_iff.1 (hclosed key hkey)).imp_right .inr

theorem createObject_eq_ok {path : String} {kind : Kind} {payload object : Object}
    (h : s.createObject path kind payload = .ok (object, s')) :
    s.parentExists path ∧ s' = ⟨s.objects.insert path object⟩ := by
  rw [createObject] at h
  split at h
  · cases h
  · split at h
    · cases h
    · rename_i hparent
      cases h
      rw [Bool.not_eq_true', Bool.not_eq_false] at hparent
      exact ⟨hparent, rfl⟩

theorem updateObject_eq_ok {path : String} {patch object : Object}
    (h : s.updateObject path patch = .ok (object, s')) :
    s.objects.contains path ∧ s' = ⟨s.objects.insert path object⟩ := by
  rw [updateObject] at h
  split at h
  · rename_i old hold
    cases h
    exact ⟨Dict.contains_iff.2 ⟨old, hold⟩, rfl⟩
  · cases h

theorem deleteObject_eq_ok {path : String} {deleted : List String}
    (h : s.deleteObject path = .ok (deleted, s')) :
    (∃ key, s.objects.contains key ∧ Path.isUnder key path) ∧
      ∀ key, s'.objects.contains key ↔ ¬Path.isUnder key path ∧ s.objects.contains key := by
  rw [deleteObject] at h
  split at h
  · cases h
  · rename_i hsome
    cases h
    obtain ⟨key, hkey⟩ := List.isEmpty_eq_false_iff_exists_mem.1 (Bool.eq_false_iff.2 hsome)
    refine ⟨⟨key, mem_subtree.1 hkey⟩, fun key => ?_⟩
    rw [Dict.contains_foldl_erase, mem_subtree]
    constructor
    · rintro ⟨hout, hkey⟩
      exact ⟨fun hunder => hout ⟨hkey, hunder⟩, hkey⟩
    · rintro ⟨hout, hkey⟩
      exact ⟨fun hunder => hout hunder.2, hkey⟩

/-- Nothing is left of what hangs on a deleted object. -/
theorem closed_delete (hclosed : s.Closed) {path : String} {deleted : List String}
    (h : s.deleteObject path = .ok (deleted, s')) : s'.Closed := by
  have hkeys := (deleteObject_eq_ok h).2
  intro key hkey
  obtain ⟨hout, hold⟩ := (hkeys key).1 hkey
  rw [parentExists_iff]
  rcases parentExists_iff.1 (hclosed key hold) with hspace | hstored
  · exact .inl hspace
  · rcases Path.isUnder_self_parent key with hroot | hself
    · exact .inl (hroot ▸ by decide)
    · exact .inr ((hkeys _).2 ⟨fun hunder => hout (Path.isUnder_trans hself hunder), hstored⟩)

/-- Where a template goes. -/
def templatePath? (template : Object) : Option String :=
  ((template.get? "slug").bind Json.text?).bind fun slug =>
    (TemplateFamily.of? template).map fun family => Path.join (templateNamespace family) slug

/-- The parent of where a template goes is there. -/
def HoldsParentOf (s : Store) (template : Object) : Prop :=
  (templatePath? template).any s.parentExists

instance (s : Store) (template : Object) : Decidable (s.HoldsParentOf template) :=
  inferInstanceAs (Decidable (_ = true))

theorem createTemplate_eq_ok {template : Object} (h : s.createTemplate template = .ok s') :
    ∃ path, templatePath? template = some path ∧ s' = ⟨s.objects.insert path template⟩ := by
  rw [createTemplate] at h
  rw [templatePath?]
  split at h
  · cases h
  · rename_i slug hslug
    split at h
    · cases h
    · rename_i family hfamily
      simp only at h
      split at h
      · cases h
      · cases h
        exact ⟨_, by rw [hslug, hfamily]; rfl, rfl⟩

/-- When the operations that do not ask for a parent keep the tree connected. -/
theorem closed_after_iff (hclosed : s.Closed) :
    (∀ (m : Move) (s' : Store), (∀ path ∈ m.paths, Path.Canonical path) → m.run s = .ok s' →
      (s'.Closed ↔ m.KeepsTree s)) ∧
    ∀ (template : Object) (s' : Store), s.createTemplate template = .ok s' →
      (s'.Closed ↔ s.HoldsParentOf template) := by
  refine ⟨fun m s' hpaths hrun => Move.closed_iff_keepsTree hclosed hpaths hrun,
    fun template s' hrun => ?_⟩
  obtain ⟨path, hpath, rfl⟩ := createTemplate_eq_ok hrun
  rw [closed_insert hclosed, HoldsParentOf, hpath]
  rfl

/-- A stray device is put into a rack, in a store where the conditions hold. -/
theorem closed_after_link : ∃ s s' : Store, s.Closed ∧
    Move.run s (.link "/Physical/Stray/d" "/Physical/r" none) = .ok s' ∧
    (s'.Closed ↔ Move.KeepsTree (.link "/Physical/Stray/d" "/Physical/r" none) s) :=
  ⟨(Store.empty.insert "/Physical/Stray/d" .empty).insert "/Physical/r" .empty, _, by decide, rfl,
    (closed_after_iff (by decide)).1 _ _ (by decide) rfl⟩

/-- A move below a path that is not there, a move into the moved subtree and a template whose slug has a slash in it succeed, and each of them leaves an object without a parent. -/
theorem not_closed_after :
    (∃ s s' : Store, s.Closed ∧ (∀ key ∈ s.objects.keys, Path.Canonical key) ∧
      s.unlinkObject "/Physical/a" (some "/Physical/nowhere") = .ok s' ∧ ¬s'.Closed) ∧
    (∃ s s' : Store, s.Closed ∧ (∀ key ∈ s.objects.keys, Path.Canonical key) ∧
      s.linkObject "/Physical/Stray/a" "/Physical/Stray/a/b" none = .ok s' ∧ ¬s'.Closed) ∧
    ∃ s', Store.empty.createTemplate
      (Dict.ofList [("slug", .str "a/b"), ("category", .str "rack")]) = .ok s' ∧ ¬s'.Closed :=
  ⟨⟨Store.empty.insert "/Physical/a" .empty, _, by decide, by decide, rfl, by decide⟩,
    ⟨(Store.empty.insert "/Physical/Stray/a" .empty).insert "/Physical/Stray/a/b" .empty, _,
      by decide, by decide, rfl, by decide⟩, _, rfl, by decide⟩

end Store

end TwinShell
