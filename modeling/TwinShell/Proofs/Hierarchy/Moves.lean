import TwinShell.Hierarchy.Store
import TwinShell.Proofs.Dict
import TwinShell.Proofs.Path

/-!
# Moving a subtree

A subtree is moved object by object, in the order of the paths: each object is taken out and put back under its new path. The new path can itself be the path of an object, and then it matters whether that object lies outside the subtree, has been moved already, or is still to be moved. The loop is followed with one statement for the keys, which always holds, and one for the objects, which holds as long as nothing is overwritten.
-/

namespace TwinShell.Store

/-! ### Where objects come to lie -/

section MovedPath

variable {source target path : String}

theorem toList_movedPath {rest : List Char} (h : path.toList = source.toList ++ rest) :
    (movedPath source target path).toList = target.toList ++ rest := by
  rw [movedPath, String.toList_append, String.toList_ofList, h, List.drop_left]

/-- A path at or below the source, as the source and the rest. -/
theorem exists_rest (h : Path.isUnder path source) :
    ∃ rest, path.toList = source.toList ++ rest ∧ (rest = [] ∨ ∃ cs, rest = '/' :: cs) := by
  rcases Path.isUnder_iff.1 h with rfl | ⟨cs, hcs⟩
  · exact ⟨[], (List.append_nil _).symm, .inl rfl⟩
  · exact ⟨'/' :: cs, hcs, .inr ⟨cs, rfl⟩⟩

theorem movedPath_source (source target : String) : movedPath source target source = target := by
  rw [← String.toList_inj, toList_movedPath (List.append_nil _).symm, List.append_nil]

theorem movedPath_inj {path' : String} (h : Path.isUnder path source) (h' : Path.isUnder path' source)
    (heq : movedPath source target path = movedPath source target path') : path = path' := by
  obtain ⟨rest, hrest, -⟩ := exists_rest h
  obtain ⟨rest', hrest', -⟩ := exists_rest h'
  have hlist := congrArg String.toList heq
  rw [toList_movedPath hrest, toList_movedPath hrest', List.append_cancel_left_eq] at hlist
  rw [← String.toList_inj, hrest, hrest', hlist]

theorem isUnder_movedPath (h : Path.isUnder path source) :
    Path.isUnder (movedPath source target path) target := by
  obtain ⟨rest, hrest, rfl | ⟨cs, rfl⟩⟩ := exists_rest h
  · rw [← String.toList_inj.1 (hrest.trans (List.append_nil _)).symm, movedPath_source]
    exact Path.isUnder_refl target
  · exact Path.isUnder_iff.2 (.inr ⟨cs, toList_movedPath hrest⟩)

theorem movedPath_ne_self (h : Path.isUnder path source) (hne : target ≠ source) :
    movedPath source target path ≠ path := by
  obtain ⟨rest, hrest, -⟩ := exists_rest h
  intro heq
  have hlist := congrArg String.toList heq
  rw [toList_movedPath hrest, hrest, List.append_cancel_right_eq, String.toList_inj] at hlist
  exact hne hlist

/-- The parent of a moved path is its moved parent. -/
theorem parent_movedPath (hsource : source ≠ "") (htarget : target ≠ "")
    (h : Path.isUnder path source) (hne : path ≠ source) :
    Path.parent (movedPath source target path) = movedPath source target (Path.parent path) := by
  obtain ⟨cs, hcs⟩ := (Path.isUnder_iff.1 h).resolve_left hne
  obtain ⟨xs, segment, hcut, hsegment⟩ := Path.exists_last_slash (List.mem_cons_self (a := '/') (l := cs))
  have hparent : ∀ {root : String}, root ≠ "" → ∀ {path : String},
      path.toList = root.toList ++ '/' :: cs → (Path.parent path).toList = root.toList ++ xs := by
    intro root hroot path hpath
    have hne : root.toList ++ xs ≠ [] := by
      rw [ne_eq, List.append_eq_nil_iff, String.toList_eq_nil_iff]
      exact fun h => hroot h.1
    rw [hcut, ← List.append_assoc] at hpath
    rw [Path.parent_of_toList hpath hsegment, if_neg hne, String.toList_ofList]
  rw [← String.toList_inj, hparent htarget (toList_movedPath hcs),
    toList_movedPath (hparent hsource hcs)]

end MovedPath

/-! ### The loop -/

section Loop

variable {s : Store} {source target : String}

theorem mem_subtree {path : String} :
    path ∈ s.subtree source ↔ s.objects.contains path ∧ Path.isUnder path source := by
  rw [subtree, List.mem_filter, Dict.mem_keys]

theorem subtree_sorted (s : Store) (source : String) : (s.subtree source).Pairwise (· < ·) :=
  List.Pairwise.filter _ s.objects.keys_sorted

/-- The objects after the whole loop. -/
def movedObjects (s : Store) (source target : String) : Dict Object :=
  (s.subtree source).foldl (moveOne source target) s.objects

/-- Moving the object at `key` overwrites another one: one outside the subtree, or one still to be moved. -/
def Overwrites (s : Store) (source target key : String) : Prop :=
  s.objects.contains (movedPath source target key) ∧
    ¬(Path.isUnder (movedPath source target key) source ∧ movedPath source target key < key)

instance (s : Store) (source target key : String) : Decidable (Overwrites s source target key) :=
  inferInstanceAs (Decidable (_ ∧ ¬(_ ∧ _)))

theorem get?_moveOne {d : Dict Object} {old path : String} {object : Object}
    (h : d.get? old = some object) :
    (moveOne source target d old).get? path =
      if path = movedPath source target old then some object
      else if path = old then none else d.get? path := by
  rw [moveOne, h, Dict.get?_insert, Dict.get?_erase]

theorem contains_moveOne {d : Dict Object} {old path : String} (h : d.contains old) :
    (moveOne source target d old).contains path ↔
      path = movedPath source target old ∨ path ≠ old ∧ d.contains path := by
  obtain ⟨object, hobject⟩ := Dict.contains_iff.1 h
  rw [moveOne, hobject, Dict.contains_insert, Dict.contains_erase]

theorem size_moveOne {d : Dict Object} {old : String} (h : d.contains old)
    (hne : movedPath source target old ≠ old) :
    (moveOne source target d old).size + (if d.contains (movedPath source target old) then 1 else 0) =
      d.size := by
  obtain ⟨object, hobject⟩ := Dict.contains_iff.1 h
  have herase := Dict.size_erase h
  have hcontains : (d.erase old).contains (movedPath source target old) =
      d.contains (movedPath source target old) := by
    rw [Bool.eq_iff_iff, Dict.contains_erase]
    exact and_iff_right hne
  rw [moveOne, hobject]
  simp only [Dict.size_insert, hcontains]
  split <;> omega

/-- What a prefix of the loop has done to the keys. -/
structure KeysMoved (s : Store) (source target : String) (done : List String) (d : Dict Object) :
    Prop where
  contains_iff : ∀ path, d.contains path ↔ (s.objects.contains path ∧ path ∉ done) ∨
    ∃ key ∈ done, path = movedPath source target key ∧ ¬(path ∈ done ∧ key < path)
  size_eq : d.size + (done.filter fun key => Overwrites s source target key).length = s.objects.size

/-- Where the loop stands when `done` is moved and `old` is next. -/
structure AtTurn (s : Store) (source : String) (done : List String) (old : String) : Prop where
  contains : s.objects.contains old
  isUnder : Path.isUnder old source
  lt : ∀ key ∈ done, key < old
  done_isUnder : ∀ key ∈ done, Path.isUnder key source
  mem_done : ∀ {path}, s.objects.contains path → (path ∈ done ↔ Path.isUnder path source ∧ path < old)

theorem atTurn {done todo : List String} {old : String}
    (hall : s.subtree source = done ++ old :: todo) : AtTurn s source done old := by
  have hsorted := hall ▸ subtree_sorted s source
  obtain ⟨-, htodo, hlt⟩ := List.pairwise_append.1 hsorted
  have hmem : ∀ {path}, path ∈ done ++ old :: todo → s.objects.contains path ∧
      Path.isUnder path source := fun h => mem_subtree.1 (hall ▸ h)
  have hold := hmem (List.mem_append_right done List.mem_cons_self)
  refine ⟨hold.1, hold.2, fun key hkey => hlt key hkey old List.mem_cons_self,
    fun key hkey => (hmem (List.mem_append_left _ hkey)).2, fun {path} hpath => ⟨fun hdone => ?_, ?_⟩⟩
  · exact ⟨(hmem (List.mem_append_left _ hdone)).2, hlt path hdone old List.mem_cons_self⟩
  · rintro ⟨hunder, hless⟩
    rcases List.mem_append.1 (hall ▸ mem_subtree.2 ⟨hpath, hunder⟩) with hdone | htail
    · exact hdone
    · rcases List.mem_cons.1 htail with rfl | htail
      · exact absurd hless (String.lt_irrefl _)
      · exact absurd (String.lt_trans hless ((List.pairwise_cons.1 htodo).1 path htail))
          (String.lt_irrefl _)

theorem AtTurn.not_mem {done : List String} {old : String} (h : AtTurn s source done old) :
    old ∉ done :=
  fun hmem => String.lt_irrefl _ (h.lt old hmem)

/-- No other object comes to lie where this one does. -/
theorem AtTurn.movedPath_ne {done : List String} {old key : String} (h : AtTurn s source done old)
    (hkey : key ∈ done) : movedPath source target old ≠ movedPath source target key := by
  intro heq
  exact h.not_mem (movedPath_inj h.isUnder (h.done_isUnder key hkey) heq ▸ hkey)

/-- One more object is moved. -/
theorem KeysMoved.step {done todo : List String} {old : String} {d : Dict Object}
    (hall : s.subtree source = done ++ old :: todo) (hne : target ≠ source)
    (h : KeysMoved s source target done d) :
    KeysMoved s source target (done ++ [old]) (moveOne source target d old) := by
  have hturn := atTurn hall
  have hcontains : d.contains old := (h.contains_iff old).2 (.inl ⟨hturn.contains, hturn.not_mem⟩)
  refine ⟨fun path => ?_, ?_⟩
  · rw [contains_moveOne hcontains, h.contains_iff]
    constructor
    · rintro (rfl | ⟨hpath, ⟨hstored, hdone⟩ | ⟨key, hkey, rfl, hkept⟩⟩)
      · refine .inr ⟨old, by simp, rfl, ?_⟩
        rintro ⟨hmem, hless⟩
        rcases List.mem_append.1 hmem with hmem | hmem
        · exact String.lt_irrefl _ (String.lt_trans hless (hturn.lt _ hmem))
        · exact movedPath_ne_self hturn.isUnder hne (List.mem_singleton.1 hmem)
      · exact .inl ⟨hstored, by simp [hdone, hpath]⟩
      · exact .inr ⟨key, by simp [hkey], rfl, by simpa [hpath] using hkept⟩
    · rintro (⟨hstored, hdone⟩ | ⟨key, hkey, rfl, hkept⟩)
      · rw [List.mem_append, List.mem_singleton, not_or] at hdone
        exact .inr ⟨hdone.2, .inl ⟨hstored, hdone.1⟩⟩
      · rcases List.mem_append.1 hkey with hkey | hkey
        · refine .inr ⟨fun heq => hkept ⟨by simp [heq], heq ▸ hturn.lt key hkey⟩,
            .inr ⟨key, hkey, rfl, fun hdone => hkept ⟨by simp [hdone.1], hdone.2⟩⟩⟩
        · exact .inl (List.mem_singleton.1 hkey ▸ rfl)
  · have hover : d.contains (movedPath source target old) ↔ Overwrites s source target old := by
      rw [h.contains_iff, Overwrites]
      constructor
      · rintro (⟨hstored, hdone⟩ | ⟨key, hkey, heq, -⟩)
        · exact ⟨hstored, fun hmoved => hdone ((hturn.mem_done hstored).2 hmoved)⟩
        · exact absurd heq (hturn.movedPath_ne hkey)
      · exact fun hover => .inl ⟨hover.1, fun hdone => hover.2 ((hturn.mem_done hover.1).1 hdone)⟩
    have hsize := size_moveOne hcontains (movedPath_ne_self hturn.isUnder hne)
    have hsize' := h.size_eq
    rw [List.filter_append, List.length_append]
    by_cases hold : Overwrites s source target old
    · rw [if_pos (hover.2 hold)] at hsize
      simp only [List.filter_cons, hold, decide_true, if_true, List.filter_nil, List.length_singleton]
      omega
    · rw [if_neg (mt hover.1 hold)] at hsize
      simp only [List.filter_cons, hold, decide_false, Bool.false_eq_true, if_false, List.filter_nil,
        List.length_nil]
      omega

/-- What holds at the start and is kept by every turn holds of the whole loop. -/
theorem movedObjects_induction {p : List String → Dict Object → Prop} (hstart : p [] s.objects)
    (hstep : ∀ {done todo old d}, s.subtree source = done ++ old :: todo → p done d →
      p (done ++ [old]) (moveOne source target d old)) :
    p (s.subtree source) (s.movedObjects source target) := by
  have hrun : ∀ todo done d, s.subtree source = done ++ todo → p done d →
      p (s.subtree source) (todo.foldl (moveOne source target) d) := by
    intro todo
    induction todo with
    | nil =>
      intro done d hall hd
      rw [hall, List.append_nil]
      exact hd
    | cons old todo ih =>
      intro done d hall hd
      exact ih (done ++ [old]) _ (by simp [hall]) (hstep hall hd)
  exact hrun _ [] _ rfl hstart

theorem keysMoved (hne : target ≠ source) :
    KeysMoved s source target (s.subtree source) (s.movedObjects source target) := by
  refine movedObjects_induction ⟨fun path => ?_, rfl⟩ fun hall h => h.step hall hne
  simp

/-- What a prefix of the loop has done to the objects, when nothing is overwritten. -/
structure ObjectsMoved (s : Store) (source target : String) (done : List String) (d : Dict Object) :
    Prop where
  get?_moved : ∀ key ∈ done, d.get? (movedPath source target key) = s.objects.get? key
  get?_other : ∀ path, (∀ key ∈ done, path ≠ movedPath source target key) →
    d.get? path = if path ∈ done then none else s.objects.get? path

theorem ObjectsMoved.step {done todo : List String} {old : String} {d : Dict Object}
    (hall : s.subtree source = done ++ old :: todo)
    (hkept : ∀ key, s.objects.contains key → Path.isUnder key source →
      ¬Overwrites s source target key)
    (h : ObjectsMoved s source target done d) :
    ObjectsMoved s source target (done ++ [old]) (moveOne source target d old) := by
  have hturn := atTurn hall
  -- An object that was put where this one lies would have overwritten it.
  have hfresh : ∀ key ∈ done, old ≠ movedPath source target key := by
    intro key hkey heq
    have hstored : s.objects.contains key := (mem_subtree.1 (hall ▸ List.mem_append_left _ hkey)).1
    refine hkept key hstored (hturn.done_isUnder key hkey) ⟨heq ▸ hturn.contains, fun hmoved => ?_⟩
    exact String.lt_irrefl _ (String.lt_trans (hturn.lt key hkey) (heq ▸ hmoved.2))
  obtain ⟨object, hobject⟩ := Dict.contains_iff.1 hturn.contains
  have hold : d.get? old = some object := by
    rw [h.get?_other old hfresh, if_neg hturn.not_mem, hobject]
  refine ⟨fun key hkey => ?_, fun path hpath => ?_⟩
  · rw [get?_moveOne hold]
    rcases List.mem_append.1 hkey with hkey | hkey
    · rw [if_neg (Ne.symm (hturn.movedPath_ne hkey)), if_neg (Ne.symm (hfresh key hkey)),
        h.get?_moved key hkey]
    · rw [List.mem_singleton.1 hkey, if_pos rfl, hobject]
  · rw [get?_moveOne hold, if_neg (hpath old (by simp)),
      h.get?_other path fun key hkey => hpath key (by simp [hkey])]
    by_cases heq : path = old
    · simp [heq]
    · simp [heq]

theorem objectsMoved (hkept : ∀ key, s.objects.contains key → Path.isUnder key source →
    ¬Overwrites s source target key) :
    ObjectsMoved s source target (s.subtree source) (s.movedObjects source target) :=
  movedObjects_induction ⟨nofun, fun _ _ => by simp⟩ fun hall h => h.step hall hkept

/-- The keys after the loop: those outside the subtree and the new ones, except where an object was put that was then moved on. -/
theorem contains_movedObjects (hne : target ≠ source) {path : String} :
    (s.movedObjects source target).contains path ↔
      (s.objects.contains path ∧ ¬Path.isUnder path source) ∨
      ∃ key, s.objects.contains key ∧ Path.isUnder key source ∧ path = movedPath source target key ∧
        ¬(s.objects.contains path ∧ Path.isUnder path source ∧ key < path) := by
  rw [(keysMoved hne).contains_iff]
  simp only [mem_subtree, and_assoc, not_and]
  refine or_congr ⟨fun h => ⟨h.1, h.2 h.1⟩, fun h => ⟨h.1, fun _ => h.2⟩⟩ Iff.rfl

end Loop

end TwinShell.Store
