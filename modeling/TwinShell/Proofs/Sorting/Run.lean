import TwinShell.Proofs.Sorting.Piece

/-!
# Sorting by merging runs

The runs of a list, one after the other, have the items of each level as the list has them, and every run that counts as in order is. Joining two neighbours keeps both, so the order in which the runs are joined does not matter for the result.
-/

namespace TwinShell.Sorting

variable {α : Type} {less : α → α → Bool} {S : Set α} {items : List α}

/-! ### Runs in order -/

theorem pairwise_followers (keeps : α → α → Bool)
    (htrans : ∀ {a b c : α}, a ∈ S → b ∈ S → c ∈ S → keeps a b → keeps b c → keeps a c) {x : α} {rest : List α}
    (hitems : ∀ y ∈ x :: rest, y ∈ S) :
    ((x :: rest).take (followers keeps x rest + 1)).Pairwise fun a b => keeps a b := by
  induction rest generalizing x with
  | nil => exact List.pairwise_singleton _ x
  | cons y rest ih =>
    obtain ⟨hx, hrest⟩ := List.forall_mem_cons.1 hitems
    rw [followers]
    split
    · rename_i hkeeps
      refine List.pairwise_cons.2 ⟨fun z hz => ?_, ih hrest⟩
      have hzS : z ∈ S := hrest z (List.mem_of_mem_take hz)
      rcases List.mem_cons.1 hz with rfl | hz
      · exact hkeeps
      · exact htrans hx (hrest y List.mem_cons_self) hzS hkeeps (List.rel_of_pairwise_cons (ih hrest) hz)
    · exact List.pairwise_singleton _ x

/-- Turning a list around that goes strictly down leaves each level as it is, as it has at most one item. -/
theorem sorts_reverse (ho : IsOrder less S) (hitems : ∀ x ∈ items, x ∈ S)
    (h : items.Pairwise fun a b => less b a) : Sorts less S items items.reverse where
  inside x hx := hitems x (List.mem_reverse.1 hx)
  upward := by
    refine List.pairwise_reverse.2 (h.imp_of_mem fun ha hb hba => ?_)
    exact ho.asymm (hitems _ hb) (hitems _ ha) hba
  levels z hz := by
    have hone : (items.filter (level less z)).Pairwise fun _ _ => False := by
      refine (h.filter _).imp_of_mem fun {a b} ha hb hba => ?_
      obtain ⟨ha, hza⟩ := List.mem_filter.1 ha
      obtain ⟨hb, hzb⟩ := List.mem_filter.1 hb
      rw [ho.not_lt_of_level (hitems b hb) (hitems a ha) hz hzb hza] at hba
      cases hba
    rw [List.filter_reverse]
    cases hlevel : items.filter (level less z) with
    | nil => rfl
    | cons a rest =>
      rw [hlevel] at hone
      cases rest with
      | nil => rfl
      | cons b rest => exact absurd (List.rel_of_pairwise_cons hone List.mem_cons_self) not_false

theorem take_length_take (n : Nat) (items : List α) : items.take (items.take n).length = items.take n := by
  rw [List.length_take]
  exact List.take_eq_take_min.symm

theorem sorts_naturalRun (ho : IsOrder less S) (hitems : ∀ x ∈ items, x ∈ S) :
    Sorts less S (items.take (naturalRun less items).length) (naturalRun less items) := by
  have hinside {n : Nat} : ∀ x ∈ items.take n, x ∈ S := fun x hx => hitems x (List.mem_of_mem_take hx)
  match items with
  | [] => exact .of_upward hitems .nil
  | [x] => exact .of_upward hitems (List.pairwise_singleton _ x)
  | x :: y :: rest =>
    rw [naturalRun]
    split
    · rename_i hless
      have hdown := pairwise_followers (fun a b => less b a) ho.flip.lt_trans hitems
      rw [followers, if_pos hless] at hdown
      rw [List.length_reverse, take_length_take]
      exact sorts_reverse ho hinside hdown
    · rename_i hless
      have hup := pairwise_followers (fun a b => !less b a) (fun ha hb hc hab hbc => by
        simpa using ho.trans hc hb ha (by simpa using hbc) (by simpa using hab)) hitems
      rw [followers, if_pos (by simpa using hless)] at hup
      rw [take_length_take]
      exact .of_upward hinside (hup.imp fun h => by simpa using h)

theorem length_naturalRun_pos (less : α → α → Bool) (h : items ≠ []) : 0 < (naturalRun less items).length := by
  match items with
  | [x] => exact Nat.one_pos
  | x :: y :: rest =>
    rw [naturalRun]
    split <;> simp

/-! ### Joining runs -/

theorem sorts_mergeSorted (ho : IsOrder less S) {items' left right : List α} (h : Sorts less S items left)
    (h' : Sorts less S items' right) : Sorts less S (items ++ items') (mergeSorted less left right) := by
  unfold mergeSorted
  split
  · exact h.merge ho h'
  · exact h.merge_back ho h'

/-- Every list of certain items is sorted in the end. -/
def Finisher.Sound (less : α → α → Bool) (S : Set α) (finisher : Finisher α) : Prop :=
  ∀ items : List α, (∀ x ∈ items, x ∈ S) → ∃ out, finisher.sort? items = some out ∧ Sorts less S items out

/-- What counts as in order is, and what does not is sorted in the end. -/
structure Run.Sound (less : α → α → Bool) (S : Set α) (finisher : Finisher α) (run : Run α) : Prop where
  inside : ∀ x ∈ run.items, x ∈ S
  upward (h : run.sorted) : Upward less run.items
  finish (h : run.sorted = false) : finisher.Sound less S

theorem Run.Sound.of_sorts {finisher : Finisher α} {out : List α} (h : Sorts less S items out) :
    Run.Sound less S finisher ⟨out, true⟩ :=
  ⟨h.inside, fun _ => h.upward, fun h => by cases h⟩

section Join

variable {mode : Mode} {finisher : Finisher α} {run left right : Run α}

theorem exists_finish? (h : run.Sound less S finisher) :
    ∃ out, run.finish? finisher = some out ∧ Sorts less S run.items out := by
  unfold Run.finish?
  cases hsorted : run.sorted with
  | true => exact ⟨run.items, rfl, .of_upward h.inside (h.upward hsorted)⟩
  | false => exact h.finish hsorted run.items h.inside

/-- The items of runs, one run after the other. -/
def itemsOf (runs : List (Run α)) : List α := (runs.map Run.items).flatten

variable (ho : IsOrder less S)
include ho

theorem exists_joinRuns? (hleft : left.Sound less S finisher) (hright : right.Sound less S finisher) :
    ∃ joined, joinRuns? less finisher left right = some joined ∧ joined.Sound less S finisher ∧
      SameLevels less S (left.items ++ right.items) joined.items := by
  unfold joinRuns?
  split
  · rename_i hunsorted
    have hfinish : left.sorted = false := by
      cases hsorted : left.sorted <;> simp_all
    refine ⟨_, rfl, ⟨List.forall_mem_append.2 ⟨hleft.inside, hright.inside⟩, fun h => ?_,
      fun _ => hleft.finish hfinish⟩, .refl _⟩
    cases h
  · obtain ⟨first, hfirst, hfirstSorts⟩ := exists_finish? hleft
    obtain ⟨second, hsecond, hsecondSorts⟩ := exists_finish? hright
    have hsorts := sorts_mergeSorted ho hfirstSorts hsecondSorts
    refine ⟨⟨mergeSorted less first second, true⟩, ?_, .of_sorts hsorts, hsorts.levels⟩
    rw [hfirst, hsecond]
    rfl

/-- The runs before a run are joined with it from the last one on, all of them if no boundary is too shallow. -/
theorem exists_collapse? (depth : Nat) {waiting : List (Run α × Nat)}
    (hwaiting : ∀ left ∈ waiting, left.1.Sound less S finisher) (hrun : run.Sound less S finisher) :
    ∃ waiting' joined, collapse? less finisher depth waiting run = some (waiting', joined) ∧
      (∀ left ∈ waiting', left.1.Sound less S finisher) ∧ joined.Sound less S finisher ∧
      SameLevels less S (itemsOf (waiting.map Prod.fst).reverse ++ run.items)
        (itemsOf (waiting'.map Prod.fst).reverse ++ joined.items) ∧ (depth = 0 → waiting' = []) := by
  induction waiting generalizing run with
  | nil => exact ⟨[], run, rfl, List.forall_mem_nil _, hrun, .refl _, fun _ => rfl⟩
  | cons left waiting ih =>
    obtain ⟨left, deep⟩ := left
    obtain ⟨hleft, hrest⟩ := List.forall_mem_cons.1 hwaiting
    rw [collapse?]
    split
    · obtain ⟨joined, hjoin, hjoined, hlevels⟩ := exists_joinRuns? ho hleft hrun
      obtain ⟨waiting', last, hcollapse, hwaiting', hlast, hlevels', hall⟩ := ih hrest hjoined
      refine ⟨waiting', last, ?_, hwaiting', hlast, .trans ?_ hlevels', hall⟩
      · rw [hjoin]
        exact hcollapse
      · have happend := SameLevels.append (.refl (itemsOf (waiting.map Prod.fst).reverse)) hlevels
        simpa [itemsOf] using happend
    · rename_i hshallow
      exact ⟨_, _, rfl, hwaiting, hrun, .refl _, fun hdepth => absurd (Nat.zero_le deep) (hdepth ▸ hshallow)⟩

theorem exists_joinAll? (total start : Nat) {waiting : List (Run α × Nat)} {rest : List (Run α)}
    (hwaiting : ∀ left ∈ waiting, left.1.Sound less S finisher) (hrun : run.Sound less S finisher)
    (hrest : ∀ next ∈ rest, next.Sound less S finisher) :
    ∃ joined, joinAll? less finisher total start waiting run rest = some joined ∧
      joined.Sound less S finisher ∧
      SameLevels less S (itemsOf (waiting.map Prod.fst).reverse ++ itemsOf (run :: rest)) joined.items := by
  induction rest generalizing start waiting run with
  | nil =>
    obtain ⟨waiting', joined, hcollapse, -, hjoined, hlevels, hall⟩ := exists_collapse? ho 0 hwaiting hrun
    obtain rfl := hall rfl
    refine ⟨joined, ?_, hjoined, ?_⟩
    · rw [joinAll?, hcollapse]
      rfl
    · simpa [itemsOf] using hlevels
  | cons next rest ih =>
    obtain ⟨hnext, hrest⟩ := List.forall_mem_cons.1 hrest
    let mid := start + run.items.length
    let depth := boundaryDepth total start mid (mid + next.items.length)
    obtain ⟨waiting', joined, hcollapse, hwaiting', hjoined, hlevels, -⟩ :=
      exists_collapse? ho depth hwaiting hrun
    have hall : ∀ left ∈ (joined, depth) :: waiting', left.1.Sound less S finisher :=
      List.forall_mem_cons.2 ⟨hjoined, hwaiting'⟩
    obtain ⟨last, hjoin, hlast, hlevels'⟩ := ih mid hall hnext hrest
    refine ⟨last, ?_, hlast, .trans ?_ hlevels'⟩
    · rw [joinAll?, hcollapse]
      exact hjoin
    · have happend := hlevels.append (.refl (itemsOf (next :: rest)))
      simpa [itemsOf] using happend

/-! ### Cutting a list -/

/-- The run at the start of a list has some of its items, and at least one. -/
theorem exists_firstRun? (hmode : mode = .later → finisher.Sound less S) (least : Nat)
    (hitems : ∀ x ∈ items, x ∈ S) (hsome : items ≠ []) :
    ∃ run, firstRun? less mode least items = some run ∧ run.Sound less S finisher ∧ 0 < run.items.length ∧
      SameLevels less S (items.take run.items.length) run.items := by
  have hinside (n : Nat) : ∀ x ∈ items.take n, x ∈ S := fun x hx => hitems x (List.mem_of_mem_take hx)
  have hpositive : 0 < items.length := List.length_pos_iff.2 hsome
  have hnatural := sorts_naturalRun ho hitems
  have hnonempty : 0 < (naturalRun less items).length := length_naturalRun_pos less hsome
  unfold firstRun?
  extract_lets natural
  split
  · exact ⟨_, rfl, .of_sorts hnatural, hnonempty, hnatural.levels⟩
  · rename_i hshort
    split
    · obtain ⟨piece, hpiece, hsorts⟩ := exists_sortPiece? ho (hinside pieceLength)
      have hlength := hsorts.length ho (hinside pieceLength)
      refine ⟨⟨piece, true⟩, by rw [hpiece]; rfl, .of_sorts hsorts, ?_, ?_⟩
      · rw [hlength, List.length_take]
        exact Nat.lt_min.2 ⟨by decide, hpositive⟩
      · rw [hlength, take_length_take]
        exact hsorts.levels
    · refine ⟨_, rfl, ⟨hinside least, fun h => ?_, fun _ => hmode rfl⟩, ?_, ?_⟩
      · cases h
      · rw [List.length_take]
        exact Nat.lt_min.2 ⟨by omega, hpositive⟩
      · rw [take_length_take]
        exact .refl _

/-- The runs of a list have its items. -/
theorem exists_runs? (hmode : mode = .later → finisher.Sound less S) (least : Nat)
    (hitems : ∀ x ∈ items, x ∈ S) :
    ∃ runs, runs? less mode least items = some runs ∧ (∀ run ∈ runs, run.Sound less S finisher) ∧
      SameLevels less S items (itemsOf runs) := by
  induction hn : items.length using Nat.strongRecOn generalizing items with
  | ind n ih =>
    cases items with
    | nil => exact ⟨[], by rw [runs?], List.forall_mem_nil _, .refl []⟩
    | cons x xs =>
      obtain ⟨run, hfirst, hrun, hpositive, hlevels⟩ :=
        exists_firstRun? ho hmode least hitems (List.cons_ne_nil x xs)
      have hrest : xs.drop (run.items.length - 1) = (x :: xs).drop run.items.length := by
        rw [← Nat.sub_add_cancel hpositive, Nat.add_sub_cancel, List.drop_succ_cons]
      have hshorter : (xs.drop (run.items.length - 1)).length < n := by
        rw [← hn, hrest, List.length_drop, List.length_cons]
        omega
      have hinside : ∀ y ∈ xs.drop (run.items.length - 1), y ∈ S := fun y hy =>
        hitems y (List.mem_cons_of_mem x (List.mem_of_mem_drop hy))
      obtain ⟨runs, hruns, hsound, hlevels'⟩ := ih _ hshorter hinside rfl
      refine ⟨run :: runs, ?_, List.forall_mem_cons.2 ⟨hrun, hsound⟩, ?_⟩
      · rw [runs?, hfirst, Option.bind_eq_bind, Option.bind_some, hruns]
        rfl
      · have happend := hlevels.append hlevels'
        rwa [hrest, List.take_append_drop] at happend

/-- A list is sorted by merging its runs if those that are left unsorted can be sorted in the end. -/
theorem exists_mergeRuns? (hmode : mode = .later → finisher.Sound less S) (hitems : ∀ x ∈ items, x ∈ S) :
    ∃ out, mergeRuns? less mode finisher items = some out ∧ Sorts less S items out := by
  obtain ⟨runs, hruns, hsound, hlevels⟩ := exists_runs? ho hmode (leastRun items.length) hitems
  cases runs with
  | nil => exact ⟨[], by rw [mergeRuns?, hruns]; rfl, List.forall_mem_nil _, .nil, hlevels⟩
  | cons first rest =>
    obtain ⟨hfirst, hrest⟩ := List.forall_mem_cons.1 hsound
    obtain ⟨joined, hjoin, hjoined, hlevels'⟩ :=
      exists_joinAll? ho items.length 0 (List.forall_mem_nil _) hfirst hrest
    obtain ⟨out, hfinish, hsorts⟩ := exists_finish? hjoined
    refine ⟨out, ?_, .trans_levels (hlevels.trans hlevels') hsorts⟩
    rw [mergeRuns?, hruns]
    simp only [Option.bind_eq_bind, Option.bind_some, hjoin, hfinish]

end Join

end TwinShell.Sorting
