import TwinShell.Proofs.Sorting.Order

/-!
# Sorting short lists

Whatever the test is, sorting by insertion gives the same items. If the test is an order, short lists are sorted: by insertion, and by merging two sorted halves from both ends at once. The two sides of that merge then meet, and no contradiction is noticed. Which items have come from the first half decides where they meet, and since the items themselves do not say it, they are marked for the proof.
-/

namespace TwinShell.Sorting

variable {α β : Type} (less : α → α → Bool)

/-! ### Insertion -/

theorem insertDown_perm (x : α) (down : List α) : (insertDown less x down).Perm (x :: down) := by
  induction down with
  | nil => exact .refl _
  | cons y down ih =>
    rw [insertDown]
    split
    · exact (ih.cons y).trans (.swap x y down)
    · exact .refl _

theorem insertAll_perm (sorted items : List α) : (insertAll less sorted items).Perm (items ++ sorted) := by
  have hfold : ∀ (items down : List α),
      (items.foldl (fun down x => insertDown less x down) down).Perm (items ++ down) := by
    intro items
    induction items with
    | nil => exact fun down => .refl _
    | cons x items ih =>
      intro down
      refine (ih _).trans ?_
      exact ((insertDown_perm less x down).append_left items).trans List.perm_middle
  refine (List.reverse_perm _).trans ((hfold items _).trans ?_)
  exact (List.reverse_perm sorted).append_left items

theorem insertionSort_perm (items : List α) : (insertionSort less items).Perm items := by
  have hall := insertAll_perm less [] items
  rwa [List.append_nil] at hall

variable {less} {S : Set α} {items sorted base down : List α} {x : α}

section Insertion

variable (ho : IsOrder less S)
include ho

/-- An item goes before those on its level in a list sorted downwards, and so behind them in the end. -/
theorem sorts_insertDown (hx : x ∈ S) (h : Sorts (fun a b => less b a) S base down) :
    Sorts (fun a b => less b a) S (x :: base) (insertDown less x down) := by
  suffices hinsert : Upward (fun a b => less b a) (insertDown less x down) ∧
      SameLevels (fun a b => less b a) S (x :: down) (insertDown less x down) by
    refine ⟨fun y hy => ?_, hinsert.1, SameLevels.trans (fun z hz => ?_) hinsert.2⟩
    · rcases List.mem_cons.1 ((insertDown_perm less x down).mem_iff.1 hy) with rfl | hy
      · exact hx
      · exact h.inside y hy
    · rw [List.filter_cons, List.filter_cons, h.levels z hz]
  obtain ⟨hinside, hdown, -⟩ := h
  induction down with
  | nil => exact ⟨List.pairwise_singleton _ _, .refl _⟩
  | cons y down ih =>
    obtain ⟨hy, hinside⟩ := List.forall_mem_cons.1 hinside
    rw [insertDown]
    split
    · rename_i hless
      obtain ⟨hupward, hlevels⟩ := ih hinside hdown.of_cons
      refine ⟨List.pairwise_cons.2 ⟨fun z hz => ?_, hupward⟩, fun z hz => ?_⟩
      · rcases List.mem_cons.1 ((insertDown_perm less x down).mem_iff.1 hz) with rfl | hz
        · exact ho.asymm hx hy hless
        · exact List.rel_of_pairwise_cons hdown hz
      · rw [List.filter_cons, hlevels z hz]
        by_cases hzx : level (fun a b => less b a) z x
        · have hzy : ¬level (fun a b => less b a) z y := by
            intro hzy
            rw [ho.flip.not_lt_of_level hy hx hz hzy hzx] at hless
            cases hless
          rw [if_neg hzy, List.filter_cons_of_pos hzx, List.filter_cons_of_pos hzx, List.filter_cons_of_neg hzy]
        · rw [List.filter_cons_of_neg hzx, List.filter_cons_of_neg hzx, List.filter_cons]
    · rename_i hless
      have hxy : less x y = false := Bool.eq_false_iff.2 hless
      refine ⟨List.pairwise_cons.2 ⟨fun z hz => ?_, hdown⟩, .refl _⟩
      rcases List.mem_cons.1 hz with rfl | hz
      · exact hxy
      · exact ho.trans hx hy (hinside z hz) hxy (List.rel_of_pairwise_cons hdown hz)

theorem sorts_insertAll (hitems : ∀ x ∈ items, x ∈ S) (h : Sorts less S base sorted) :
    Sorts less S (base ++ items) (insertAll less sorted items) := by
  have hfold : ∀ {base down : List α}, Sorts (fun a b => less b a) S base down →
      Sorts (fun a b => less b a) S (items.reverse ++ base)
        (items.foldl (fun down x => insertDown less x down) down) := by
    induction items with
    | nil => exact fun h => h
    | cons x items ih =>
      intro base down h
      obtain ⟨hx, hitems⟩ := List.forall_mem_cons.1 hitems
      rw [List.reverse_cons, List.append_assoc]
      exact ih hitems (sorts_insertDown ho hx h)
  have hdown : Sorts (fun a b => less b a) S base.reverse sorted.reverse := h.reverse
  have hall := (hfold hdown).reverse
  rwa [List.reverse_append, List.reverse_reverse, List.reverse_reverse] at hall

theorem sorts_insertionSort (hitems : ∀ x ∈ items, x ∈ S) : Sorts less S items (insertionSort less items) :=
  sorts_insertAll ho hitems (.of_upward (List.forall_mem_nil _) .nil)

end Insertion

/-! ### Four items -/

section Four

variable {p q r s : α}

theorem sortFour_swap_first (hpq : less q p) (hqp : less p q = false) :
    sortFour less [p, q, r, s] = sortFour less [q, p, r, s] := by
  simp only [sortFour, hpq, hqp]
  rfl

theorem sortFour_swap_last (hrs : less s r) (hsr : less r s = false) :
    sortFour less [p, q, r, s] = sortFour less [p, q, s, r] := by
  simp only [sortFour, hrs, hsr]
  rfl

variable (ho : IsOrder less S)
include ho

/-- Two pairs in order are merged by three comparisons. -/
theorem sortFour_eq_merge (hp : p ∈ S) (hq : q ∈ S) (hr : r ∈ S) (hs : s ∈ S) (hpq : less q p = false)
    (hrs : less s r = false) :
    sortFour less [p, q, r, s] = [p, q].merge [r, s] fun x y => !less y x := by
  simp only [sortFour, hpq, hrs, List.cons_merge_cons, List.merge_right, List.nil_merge]
  cases hsq : less s q with
  | true =>
    have hrq : less r q := ho.flip.lt_of_lt_of_le hq hs hr hsq hrs
    cases hrp : less r p <;> cases hsp : less s p <;> simp [hrp, hsq, hrs, hrq, hsp]
  | false =>
    have hsp : less s p = false := ho.trans hs hq hp hsq hpq
    cases hrp : less r p <;> cases hrq : less r q <;> simp [hrp, hsq, hpq, hrq, hsp]

/-- Two items are put in order by one comparison. -/
theorem exists_pair (hp : p ∈ S) (hq : q ∈ S) : ∃ a ∈ S, ∃ b ∈ S, less b a = false ∧
    Sorts less S [p, q] [a, b] ∧ (a = p ∧ b = q ∨ less q p ∧ a = q ∧ b = p) := by
  have hsorts := sorts_insertionSort ho (List.forall_mem_cons.2 ⟨hp, List.forall_mem_singleton.2 hq⟩)
  cases hqp : less q p with
  | true =>
    have hsort : insertionSort less [p, q] = [q, p] := by
      simp [insertionSort, insertAll, insertDown, hqp]
    rw [hsort] at hsorts
    exact ⟨q, hq, p, hp, ho.asymm hq hp hqp, hsorts, .inr ⟨rfl, rfl, rfl⟩⟩
  | false =>
    have hsort : insertionSort less [p, q] = [p, q] := by
      simp [insertionSort, insertAll, insertDown, hqp]
    rw [hsort] at hsorts
    exact ⟨p, hp, q, hq, hqp, hsorts, .inl ⟨rfl, rfl⟩⟩

theorem sorts_sortFour (hitems : ∀ x ∈ items, x ∈ S) (hlength : items.length = 4 ∨ items.length ≤ 1) :
    Sorts less S items (sortFour less items) := by
  match items, hlength with
  | [], _ => exact .of_upward hitems .nil
  | [x], _ => exact .of_upward hitems (List.pairwise_singleton _ x)
  | [p, q, r, s], _ =>
    simp only [List.forall_mem_cons] at hitems
    obtain ⟨hp, hq, hr, hs, -⟩ := hitems
    obtain ⟨a, ha, b, hb, hab, hfirst, hpq⟩ := exists_pair ho hp hq
    obtain ⟨c, hc, d, hd, hcd, hlast, hrs⟩ := exists_pair ho hr hs
    have hfour : sortFour less [p, q, r, s] = sortFour less [a, b, c, d] := by
      rcases hpq with ⟨rfl, rfl⟩ | ⟨hless, rfl, rfl⟩ <;> rcases hrs with ⟨rfl, rfl⟩ | ⟨hless', rfl, rfl⟩
      · rfl
      · rw [sortFour_swap_last hless' hcd]
      · rw [sortFour_swap_first hless hab]
      · rw [sortFour_swap_first hless hab, sortFour_swap_last hless' hcd]
    rw [hfour, sortFour_eq_merge ho ha hb hc hd hab hcd]
    exact hfirst.merge ho hlast

end Four

/-! ### Merging from both ends -/

section Steps

variable (takeFirst : α → α → Bool)

theorem mergeSteps_cons_of_pos {x y : α} {xs ys : List α} (n : Nat) (h : takeFirst x y) :
    mergeSteps takeFirst (n + 1) (x :: xs) (y :: ys) =
      (x :: (mergeSteps takeFirst n xs (y :: ys)).1, (mergeSteps takeFirst n xs (y :: ys)).2 + 1) := by
  rw [mergeSteps, if_pos h]

theorem mergeSteps_cons_of_neg {x y : α} {xs ys : List α} (n : Nat) (h : ¬takeFirst x y) :
    mergeSteps takeFirst (n + 1) (x :: xs) (y :: ys) =
      (y :: (mergeSteps takeFirst n (x :: xs) ys).1, (mergeSteps takeFirst n (x :: xs) ys).2) := by
  rw [mergeSteps, if_neg h]

/-- What a merge has taken after some steps is the start of all that it takes, if no list runs out before. -/
theorem mergeSteps_spec (n : Nat) {xs ys : List α} (hxs : n ≤ xs.length) (hys : n ≤ ys.length) :
    (mergeSteps takeFirst n xs ys).2 ≤ n ∧ (mergeSteps takeFirst n xs ys).1.length = n ∧
      xs.merge ys takeFirst = (mergeSteps takeFirst n xs ys).1 ++
        (xs.drop (mergeSteps takeFirst n xs ys).2).merge (ys.drop (n - (mergeSteps takeFirst n xs ys).2))
          takeFirst := by
  induction n generalizing xs ys with
  | zero => exact ⟨Nat.le_refl 0, rfl, rfl⟩
  | succ n ih =>
    cases xs with
    | nil => cases hxs
    | cons x xs =>
      cases ys with
      | nil => cases hys
      | cons y ys =>
        by_cases h : takeFirst x y
        · obtain ⟨hcount, hlength, hmerge⟩ := ih (Nat.le_of_succ_le_succ hxs) (Nat.le_of_succ_le hys)
          rw [mergeSteps_cons_of_pos takeFirst n h, List.cons_merge_cons_pos takeFirst _ _ h, hmerge,
            Nat.add_sub_add_right]
          exact ⟨Nat.succ_le_succ hcount, congrArg (· + 1) hlength, rfl⟩
        · obtain ⟨hcount, hlength, hmerge⟩ := ih (Nat.le_of_succ_le hxs) (Nat.le_of_succ_le_succ hys)
          rw [mergeSteps_cons_of_neg takeFirst n h, List.cons_merge_cons_neg takeFirst _ _ h, hmerge,
            Nat.succ_sub hcount]
          exact ⟨Nat.le_succ_of_le hcount, congrArg (· + 1) hlength, rfl⟩

theorem mergeSteps_append (n : Nat) {xs ys : List α} (xs' ys' : List α) (hxs : n ≤ xs.length)
    (hys : n ≤ ys.length) :
    mergeSteps takeFirst n (xs ++ xs') (ys ++ ys') = mergeSteps takeFirst n xs ys := by
  induction n generalizing xs ys with
  | zero => rfl
  | succ n ih =>
    cases xs with
    | nil => cases hxs
    | cons x xs =>
      cases ys with
      | nil => cases hys
      | cons y ys =>
        by_cases h : takeFirst x y
        · have hrest := ih (Nat.le_of_succ_le_succ hxs) (Nat.le_of_succ_le hys)
          rw [List.cons_append, List.cons_append, mergeSteps_cons_of_pos takeFirst n h,
            mergeSteps_cons_of_pos takeFirst n h, ← List.cons_append, hrest]
        · have hrest := ih (Nat.le_of_succ_le hxs) (Nat.le_of_succ_le_succ hys)
          rw [List.cons_append, List.cons_append, mergeSteps_cons_of_neg takeFirst n h,
            mergeSteps_cons_of_neg takeFirst n h, ← List.cons_append, hrest]

/-- If the items of the first list are marked and those of the second are not, the marked items are counted. -/
theorem mergeSteps_count {mark : α → Bool} (n : Nat) {xs ys : List α} (hxs : ∀ x ∈ xs, mark x)
    (hys : ∀ y ∈ ys, mark y = false) :
    (mergeSteps takeFirst n xs ys).2 = (mergeSteps takeFirst n xs ys).1.countP mark := by
  induction n generalizing xs ys with
  | zero => rfl
  | succ n ih =>
    cases xs with
    | nil => rfl
    | cons x xs =>
      cases ys with
      | nil => rfl
      | cons y ys =>
        obtain ⟨hx, hxs'⟩ := List.forall_mem_cons.1 hxs
        obtain ⟨hy, hys'⟩ := List.forall_mem_cons.1 hys
        by_cases h : takeFirst x y
        · rw [mergeSteps_cons_of_pos takeFirst n h, List.countP_cons_of_pos hx, ih hxs' hys]
        · rw [mergeSteps_cons_of_neg takeFirst n h, List.countP_cons_of_neg (by simp [hy]), ih hxs hys']

theorem mergeSteps_map (f : β → α) (n : Nat) (xs ys : List β) :
    mergeSteps takeFirst n (xs.map f) (ys.map f) =
      ((mergeSteps (fun x y => takeFirst (f x) (f y)) n xs ys).1.map f,
        (mergeSteps (fun x y => takeFirst (f x) (f y)) n xs ys).2) := by
  induction n generalizing xs ys with
  | zero => rfl
  | succ n ih =>
    cases xs with
    | nil => rfl
    | cons x xs =>
      cases ys with
      | nil => rfl
      | cons y ys =>
        by_cases h : takeFirst (f x) (f y)
        · rw [List.map_cons, List.map_cons, mergeSteps_cons_of_pos takeFirst n h, ← List.map_cons, ih,
            mergeSteps_cons_of_pos (fun x y => takeFirst (f x) (f y)) n h, List.map_cons]
        · rw [List.map_cons, List.map_cons, mergeSteps_cons_of_neg takeFirst n h, ← List.map_cons, ih,
            mergeSteps_cons_of_neg (fun x y => takeFirst (f x) (f y)) n h, List.map_cons]

end Steps

theorem mergeHalves?_map (less : α → α → Bool) (f : β → α) (items : List β) :
    mergeHalves? less (items.map f) =
      (mergeHalves? (fun x y => less (f x) (f y)) items).map (List.map f) := by
  simp only [mergeHalves?, List.length_map, ← List.map_drop, ← List.map_take, ← List.map_reverse, mergeSteps_map]
  split
  · split
    · rw [Option.map_some, List.map_append]
    · rfl
  · split
    · rw [Option.map_some, List.map_append, List.map_append]
    · split
      · rw [Option.map_some, List.map_append, List.map_append]
      · rfl

/-- The first item of a merge is the first one of one of the two lists. -/
theorem head_of_merge {takeFirst : α → α → Bool} {xs ys rest : List α} (h : xs.merge ys takeFirst = x :: rest) :
    xs.take 1 = [x] ∨ ys.take 1 = [x] := by
  cases xs with
  | nil =>
    rw [List.nil_merge] at h
    exact .inr (by rw [h]; rfl)
  | cons a xs =>
    cases ys with
    | nil =>
      rw [List.merge_right] at h
      exact .inl (by rw [h]; rfl)
    | cons b ys =>
      rw [List.cons_merge_cons] at h
      split at h
      · exact .inl (congrArg (fun a => [a]) (List.cons_eq_cons.1 h).1)
      · exact .inr (congrArg (fun a => [a]) (List.cons_eq_cons.1 h).1)

section Halves

variable (ho : IsOrder less S) {xs ys : List α} (mark : α → Bool)
include ho

/-- As many steps of a merge from each end as there are items in the first list leave what is between them. If the items of the first list are marked and those of the second are not, those that each side and the middle have taken from it are all of them. -/
theorem exists_middle (hxs : ∀ x ∈ xs, x ∈ S) (hys : ∀ y ∈ ys, y ∈ S) (hx : Upward less xs)
    (hy : Upward less ys) (hmark : ∀ x ∈ xs, mark x) (hplain : ∀ y ∈ ys, mark y = false)
    (hle : xs.length ≤ ys.length) {front back : List α} {a b : Nat}
    (hfront : mergeSteps (fun x y => !less y x) xs.length xs ys = (front, a))
    (hback : mergeSteps (fun x y => less y x) xs.length xs.reverse ys.reverse = (back, b)) :
    ∃ middle, (xs.merge ys fun x y => !less y x) = front ++ middle ++ back.reverse ∧
      ((xs.drop a).merge (ys.drop (xs.length - a)) fun x y => !less y x) = middle ++ back.reverse ∧
      middle.length = ys.length - xs.length ∧ a + middle.countP mark + b = xs.length := by
  obtain ⟨-, htaken, hmerge⟩ := mergeSteps_spec (fun x y => !less y x) xs.length (Nat.le_refl _) hle
  have hself : xs.length ≤ xs.reverse.length := Nat.le_of_eq List.length_reverse.symm
  have hle' : xs.length ≤ ys.reverse.length := by rwa [List.length_reverse]
  obtain ⟨-, htaken', hmerge'⟩ := mergeSteps_spec (fun x y => less y x) xs.length hself hle'
  have hcount := mergeSteps_count (fun x y => !less y x) xs.length hmark hplain
  have hcount' := mergeSteps_count (fun x y => less y x) xs.length
    (fun x hx => hmark x (List.mem_reverse.1 hx)) (fun y hy => hplain y (List.mem_reverse.1 hy))
  simp only [hfront] at htaken hmerge hcount
  simp only [hback] at htaken' hmerge' hcount'
  -- Both sides are at work on one list, since there is only one that sorts the two.
  have hsame : (xs.merge ys fun x y => !less y x) = (xs.reverse.merge ys.reverse fun x y => less y x).reverse :=
    ((Sorts.of_upward hxs hx).merge ho (.of_upward hys hy)).unique ho
      ((Sorts.of_upward hxs hx).merge_back ho (.of_upward hys hy))
  generalize (xs.drop a).merge (ys.drop (xs.length - a)) (fun x y => !less y x) = onward at hmerge ⊢
  generalize (xs.reverse.drop b).merge (ys.reverse.drop (xs.length - b)) (fun x y => less y x) = before at hmerge'
  have hmeet : front ++ onward = before.reverse ++ back.reverse := by
    rw [← hmerge, hsame, hmerge', List.reverse_append]
  have hbefore : before.length = ys.length := by
    have hall := congrArg List.length hmerge'
    simp only [List.length_merge, List.length_append, List.length_reverse] at hall
    omega
  have honward : onward = before.reverse.drop xs.length ++ back.reverse := by
    have hrest := congrArg (List.drop xs.length) hmeet
    rwa [List.drop_left' htaken, List.drop_append_of_le_length (by rwa [List.length_reverse, hbefore])] at hrest
  refine ⟨before.reverse.drop xs.length, ?_, honward, ?_, ?_⟩
  · rw [hmerge, honward, List.append_assoc]
  · rw [List.length_drop, List.length_reverse, hbefore]
  · have hmarks : (xs.merge ys fun x y => !less y x).countP mark = xs.length := by
      rw [(List.merge_perm_append _).countP_eq, List.countP_append, List.countP_eq_length.2 hmark,
        List.countP_eq_zero.2 fun y hy => by simp [hplain y hy], Nat.add_zero]
    rw [hmerge, honward, List.countP_append, List.countP_append, List.countP_reverse, ← hcount, ← hcount'] at hmarks
    omega

/-- The two sides have taken all items but the one in the middle of a list of odd length, and how many items of the first half they have taken tells from which half that one is. -/
theorem mergeHalves?_of_marked (hxs : ∀ x ∈ xs, x ∈ S) (hys : ∀ y ∈ ys, y ∈ S) (hx : Upward less xs)
    (hy : Upward less ys) (hmark : ∀ x ∈ xs, mark x) (hplain : ∀ y ∈ ys, mark y = false)
    (hlength : ys.length = xs.length ∨ ys.length = xs.length + 1) :
    mergeHalves? less (xs ++ ys) = some (xs.merge ys fun x y => !less y x) := by
  have hn : (xs ++ ys).length / 2 = xs.length := by
    rw [List.length_append]
    omega
  have hle : xs.length ≤ ys.length := by omega
  have hfront := mergeSteps_append (fun x y => !less y x) xs.length ys [] (Nat.le_refl xs.length) hle
  have hself : xs.length ≤ xs.reverse.length := Nat.le_of_eq List.length_reverse.symm
  have hle' : xs.length ≤ ys.reverse.length := by rwa [List.length_reverse]
  have hback := mergeSteps_append (fun x y => less y x) xs.length [] xs.reverse hself hle'
  rw [List.append_nil] at hfront hback
  simp only [mergeHalves?, hn, List.drop_left, List.take_left, List.reverse_append, hfront, hback]
  generalize htaken : mergeSteps (fun x y => !less y x) xs.length xs ys = taken
  generalize htaken' : mergeSteps (fun x y => less y x) xs.length xs.reverse ys.reverse = taken'
  obtain ⟨front, a⟩ := taken
  obtain ⟨back, b⟩ := taken'
  obtain ⟨middle, hmerge, honward, hmiddle, hcount⟩ :=
    exists_middle ho mark hxs hys hx hy hmark hplain hle htaken htaken'
  rw [hmerge]
  rcases hlength with hlength | hlength
  · obtain rfl : middle = [] := List.eq_nil_of_length_eq_zero (by omega)
    rw [if_pos (by rw [List.length_append]; omega), if_pos (by simpa using hcount), List.append_nil]
  · rw [if_neg (by rw [List.length_append]; omega)]
    obtain ⟨m, rfl⟩ := List.length_eq_one_iff.1 (hmiddle.trans (by omega))
    have hhead := head_of_merge honward
    by_cases hm : mark m
    · rw [List.countP_singleton, if_pos hm] at hcount
      have hfirst : (xs.drop a).take 1 = [m] := by
        refine hhead.resolve_right fun hsecond => ?_
        have hmem : m ∈ ys := List.mem_of_mem_drop (List.mem_of_mem_take (hsecond ▸ List.mem_singleton_self m))
        rw [hplain m hmem] at hm
        cases hm
      rw [if_pos (by omega), List.drop_append_of_le_length (by omega),
        List.take_append_of_le_length (by rw [List.length_drop]; omega), hfirst]
    · rw [List.countP_singleton, if_neg hm] at hcount
      have hsecond : (ys.drop (xs.length - a)).take 1 = [m] := by
        refine hhead.resolve_left fun hfirst => hm (hmark m ?_)
        exact List.mem_of_mem_drop (List.mem_of_mem_take (hfirst ▸ List.mem_singleton_self m))
      have hplace : 2 * xs.length - a = xs.length + (xs.length - a) := by omega
      rw [if_neg (by omega), if_pos (by simpa using hcount), hplace, List.drop_length_add_append, hsecond]

/-- Two sorted halves of a list are merged, and the sides meet. -/
theorem mergeHalves?_eq (hxs : ∀ x ∈ xs, x ∈ S) (hys : ∀ y ∈ ys, y ∈ S) (hx : Upward less xs)
    (hy : Upward less ys) (hlength : ys.length = xs.length ∨ ys.length = xs.length + 1) :
    mergeHalves? less (xs ++ ys) = some (xs.merge ys fun x y => !less y x) := by
  let marked (items : List α) (mark : Bool) : List (α × Bool) := items.map fun x => (x, mark)
  have hfst (items : List α) (mark : Bool) : (marked items mark).map Prod.fst = items :=
    (List.map_map ..).trans (List.map_id _)
  have hall : ∀ {P : α × Bool → Prop} {items : List α} {mark : Bool}, (∀ x ∈ items, P (x, mark)) →
      ∀ y ∈ marked items mark, P y := by
    intro P items mark h y hy
    obtain ⟨x, hx, rfl⟩ := List.mem_map.1 hy
    exact h x hx
  have ho' : IsOrder (fun x y : α × Bool => less x.1 y.1) {x | x.1 ∈ S} :=
    ⟨fun ha hb => ho.asymm ha hb, fun ha hb hc => ho.trans ha hb hc⟩
  have hupward {items : List α} (mark : Bool) (h : Upward less items) :
      Upward (fun x y : α × Bool => less x.1 y.1) (marked items mark) := List.pairwise_map.2 h
  have hmerged := mergeHalves?_of_marked ho' Prod.snd (hall hxs) (hall hys) (hupward true hx)
    (hupward false hy) (hall fun _ _ => rfl) (hall fun _ _ => rfl) (by simpa [marked] using hlength)
  have hmap := mergeHalves?_map less Prod.fst (marked xs true ++ marked ys false)
  rw [List.map_append, hfst, hfst, hmerged, Option.map_some, List.map_merge (s := fun x y => !less y x) fun _ _ _ _ => rfl,
    hfst, hfst] at hmap
  exact hmap

end Halves

/-- A short list is sorted. -/
theorem exists_sortPiece? (ho : IsOrder less S) (hitems : ∀ x ∈ items, x ∈ S) :
    ∃ out, sortPiece? less items = some out ∧ Sorts less S items out := by
  unfold sortPiece?
  split
  · rename_i hshort
    refine ⟨items, rfl, .of_upward hitems ?_⟩
    match items, hshort with
    | [], _ => exact .nil
    | [x], _ => exact List.pairwise_singleton _ x
  · extract_lets n lead half
    have hhalf : ∀ {part : List α}, (∀ x ∈ part, x ∈ S) → n ≤ part.length → Sorts less S part (half part) := by
      intro part hpart hlength
      have hlead : (part.take lead).length = 4 ∨ (part.take lead).length ≤ 1 := by
        rw [List.length_take]
        by_cases hlong : 8 ≤ items.length
        · have hfour : lead = 4 := if_pos hlong
          omega
        · have hone : lead = 1 := if_neg hlong
          omega
      have hfirst := sorts_sortFour ho (fun x hx => hpart x (List.mem_of_mem_take hx)) hlead
      have hrest : ∀ x ∈ part.drop lead, x ∈ S := fun x hx => hpart x (List.mem_of_mem_drop hx)
      have hpart := sorts_insertAll ho hrest hfirst
      rwa [List.take_append_drop] at hpart
    have htake : ∀ x ∈ items.take n, x ∈ S := fun x hx => hitems x (List.mem_of_mem_take hx)
    have hdrop : ∀ x ∈ items.drop n, x ∈ S := fun x hx => hitems x (List.mem_of_mem_drop hx)
    have hleft := hhalf htake (by rw [List.length_take]; omega)
    have hright := hhalf hdrop (by rw [List.length_drop]; omega)
    have hmerge := mergeHalves?_eq ho hleft.inside hright.inside hleft.upward hright.upward (by
      rw [hleft.length ho htake, hright.length ho hdrop, List.length_take, List.length_drop]
      omega)
    have hsorts := hleft.merge ho hright
    rw [List.take_append_drop] at hsorts
    exact ⟨_, hmerge, hsorts⟩

end TwinShell.Sorting
