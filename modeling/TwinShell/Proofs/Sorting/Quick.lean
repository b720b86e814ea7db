import Mathlib.Data.List.Basic
import TwinShell.Proofs.Sorting.Run
import TwinShell.Sorting.Quick

/-!
# Sorting by splitting

The item by which a list is split is one of its own, wherever the samples are taken. What is split off on either side keeps its order, and no level is torn apart, so both sides can be sorted on their own. That nothing is less than the bound is what makes it right to split off, unsorted, the items that are not greater than it.
-/

namespace TwinShell.Sorting

variable {α : Type} {less : α → α → Bool} {S : Set α} {items low high : List α}

/-! ### The place of the pivot -/

theorem medianPlace_cases (lessAt : Nat → Nat → Bool) (a b c : Nat) :
    medianPlace lessAt a b c = a ∨ medianPlace lessAt a b c = b ∨ medianPlace lessAt a b c = c := by
  unfold medianPlace
  extract_lets below
  split
  · split
    · exact .inr (.inl rfl)
    · exact .inr (.inr rfl)
  · exact .inl rfl

theorem samplePlace_lt (lessAt : Nat → Nat → Bool) {n a b c m : Nat} (hn : 0 < n) (ha : a ≤ m) (hb : b ≤ m)
    (hc : c ≤ m) : samplePlace lessAt n a b c < m + n := by
  induction hsame : n using Nat.strongRecOn generalizing n a b c m with
  | ind _ ih =>
    subst hsame
    rw [samplePlace]
    split
    · rename_i hlong
      extract_lets k sample
      have hsample : ∀ {base : Nat}, base ≤ m → sample base < m + n := by
        intro base hbase
        have hlt : sample base < base + 7 * k + k :=
          ih k (by omega) (by omega) (by omega) (by omega) (Nat.le_refl _) rfl
        omega
      rcases medianPlace_cases lessAt (sample a) (sample b) (sample c) with h | h | h <;> rw [h]
      · exact hsample ha
      · exact hsample hb
      · exact hsample hc
    · rcases medianPlace_cases lessAt a b c with h | h | h <;> omega

theorem pivotPlace_lt (less : α → α → Bool) {items : Array α} (h : 8 ≤ items.size) :
    pivotPlace less items < items.size := by
  unfold pivotPlace
  extract_lets k lessAt
  have hlt : samplePlace lessAt k 0 (4 * k) (7 * k) < 7 * k + k :=
    samplePlace_lt lessAt (by omega) (Nat.zero_le _) (by omega) (Nat.le_refl _)
  omega

/-- A list that is split has an item at the place of its pivot. -/
theorem exists_pivot (less : α → α → Bool) (h : ¬items.length ≤ pieceLength) :
    ∃ pivot, items[pivotPlace less items.toArray]? = some pivot := by
  have hplace : pivotPlace less items.toArray < items.toArray.size := by
    refine pivotPlace_lt less ?_
    rw [List.size_toArray]
    exact Nat.le_trans (by decide) (Nat.le_of_not_le h)
  rw [List.size_toArray] at hplace
  exact ⟨_, List.getElem?_eq_getElem hplace⟩

/-! ### Splitting -/

theorem split_eq (goesLeft : α → Bool) {place : Nat} {pivot : α} {left : Bool} (h : items[place]? = some pivot)
    (hleft : goesLeft pivot = left) :
    split goesLeft place left items = (items.filter goesLeft, items.filter fun x => !goesLeft x) := by
  have hplace : ∀ e ∈ items.zipIdx, (if e.2 = place then left else goesLeft e.1) = goesLeft e.1 := by
    intro e he
    split
    · rename_i hsame
      have hitem := List.mem_zipIdx_iff_getElem?.1 he
      rw [hsame, h] at hitem
      rw [← hleft, Option.some.inj hitem]
    · rfl
  have hfilter (p : α → Bool) : (items.zipIdx.filter (p ∘ Prod.fst)).map Prod.fst = items.filter p := by
    rw [← List.filter_map, List.zipIdx_map_fst]
  unfold split
  rw [List.partition_eq_filter_filter]
  refine Prod.ext ?_ ?_
  · exact (congrArg (List.map Prod.fst) (List.filter_congr hplace)).trans (hfilter goesLeft)
  · exact (congrArg (List.map Prod.fst) (List.filter_congr fun e he => congrArg not (hplace e he))).trans
      (hfilter fun x => !goesLeft x)

section Split

variable (ho : IsOrder less S)
include ho

/-- What is less than the rest is split off without tearing a level apart. -/
theorem sameLevels_split (hitems : ∀ x ∈ items, x ∈ S) {p : α → Bool}
    (hp : ∀ x ∈ items, ∀ y ∈ items, p x → p y = false → less x y) :
    SameLevels less S items (items.filter p ++ items.filter fun x => !p x) := by
  intro z hz
  have hlevel : ∀ x ∈ items.filter (level less z), ∀ y ∈ items.filter (level less z), p x → p y := by
    intro x hx y hy hpx
    obtain ⟨hx, hzx⟩ := List.mem_filter.1 hx
    obtain ⟨hy, hzy⟩ := List.mem_filter.1 hy
    cases hpy : p y with
    | true => rfl
    | false =>
      have hxy := hp x hx y hy hpx hpy
      rw [ho.not_lt_of_level (hitems x hx) (hitems y hy) hz hzx hzy] at hxy
      cases hxy
  have hcomm (q : α → Bool) : (items.filter q).filter (level less z) = (items.filter (level less z)).filter q :=
    List.filter_comm ..
  rw [List.filter_append, hcomm, hcomm]
  generalize items.filter (level less z) = same at hlevel
  cases same with
  | nil => rfl
  | cons a rest =>
    cases hpa : p a with
    | true =>
      have hall : ∀ x ∈ a :: rest, p x := fun x hx => hlevel a List.mem_cons_self x hx hpa
      rw [List.filter_eq_self.2 hall, List.filter_eq_nil_iff.2 fun x hx => by simp [hall x hx], List.append_nil]
    | false =>
      have hnone : ∀ x ∈ a :: rest, p x = false := fun x hx =>
        Bool.eq_false_iff.2 fun hpx => by simp [hlevel x hx a List.mem_cons_self hpx] at hpa
      rw [List.filter_eq_nil_iff.2 fun x hx => by simp [hnone x hx],
        List.filter_eq_self.2 fun x hx => by simp [hnone x hx], List.nil_append]

theorem sorts_append_of_split (hitems : ∀ x ∈ items, x ∈ S) {p : α → Bool}
    (hp : ∀ x ∈ items, ∀ y ∈ items, p x → p y = false → less x y)
    (hlow : Sorts less S (items.filter p) low) (hhigh : Sorts less S (items.filter fun x => !p x) high) :
    Sorts less S items (low ++ high) := by
  have hfilter (q : α → Bool) : ∀ x ∈ items.filter q, x ∈ S := fun x hx => hitems x (List.mem_filter.1 hx).1
  refine .trans_levels (sameLevels_split ho hitems hp) (hlow.append hhigh fun x hx y hy => ?_)
  obtain ⟨hx, hpx⟩ := List.mem_filter.1 ((hlow.perm ho (hfilter _)).mem_iff.1 hx)
  obtain ⟨hy, hpy⟩ := List.mem_filter.1 ((hhigh.perm ho (hfilter _)).mem_iff.1 hy)
  exact ho.asymm (hitems x hx) (hitems y hy) (hp x hx y hy hpx (by simpa using hpy))

theorem exists_mergeAtOnce? (hitems : ∀ x ∈ items, x ∈ S) :
    ∃ out, mergeAtOnce? less items = some out ∧ Sorts less S items out :=
  exists_mergeRuns? ho (fun h => by cases h) hitems

/-- Items on the level of the pivot, which is not greater than any, need no sorting. -/
theorem sorts_least (hitems : ∀ x ∈ items, x ∈ S) {pivot : α} (hpivot : pivot ∈ S)
    (hleast : ∀ x ∈ items, less x pivot = false)
    (hhigh : Sorts less S (items.filter fun x => !(!less pivot x)) high) :
    Sorts less S items ((items.filter fun x => !less pivot x) ++ high) := by
  have hfilter : ∀ x ∈ items.filter fun x => !less pivot x, x ∈ S ∧ less x pivot = false ∧ less pivot x = false := by
    intro x hx
    obtain ⟨hx, hle⟩ := List.mem_filter.1 hx
    exact ⟨hitems x hx, hleast x hx, by simpa using hle⟩
  refine sorts_append_of_split ho hitems (fun x hx y hy hpx hpy => ?_)
    (.of_upward (fun x hx => (hfilter x hx).1) ?_) hhigh
  · exact ho.flip.lt_of_lt_of_le (hitems y hy) hpivot (hitems x hx) (by simpa using hpy) (by simpa using hpx)
  · refine List.pairwise_iff_forall_sublist.2 fun {a b} hab => ?_
    obtain ⟨ha, -, hpa⟩ := hfilter a (hab.subset List.mem_cons_self)
    obtain ⟨hb, hbp, -⟩ := hfilter b (hab.subset (List.mem_cons_of_mem a (List.mem_singleton_self b)))
    exact ho.trans hb hpivot ha hbp hpa

/-- Splitting at most `limit` times sorts every list in which nothing is less than the bound. -/
def QuickSorts (less : α → α → Bool) (S : Set α) (limit : Nat) : Prop :=
  ∀ {items : List α} (bound : Option α), (∀ x ∈ items, x ∈ S) →
    (∀ b ∈ bound, b ∈ S ∧ ∀ x ∈ items, less x b = false) →
      ∃ out, quickSort? less limit bound items = some out ∧ Sorts less S items out

section Step

variable {limit place : Nat} {pivot : α} (hrest : QuickSorts less S limit) (hitems : ∀ x ∈ items, x ∈ S)
  (hpivot : items[place]? = some pivot)
include hrest hitems hpivot

theorem exists_splitLeast? (hleast : ∀ x ∈ items, less x pivot = false) :
    ∃ out, (do
      let high ← quickSort? less limit none (split (fun x => !less pivot x) place true items).2
      pure ((split (fun x => !less pivot x) place true items).1 ++ high)) = some out ∧
        Sorts less S items out := by
  have hmem : pivot ∈ S := hitems pivot (List.mem_of_getElem? hpivot)
  have hothers : ∀ x ∈ items.filter fun x => !(!less pivot x), x ∈ S := fun x hx =>
    hitems x (List.mem_filter.1 hx).1
  obtain ⟨high, hsort, hhigh⟩ := hrest none hothers fun _ hb => by cases hb
  refine ⟨_, ?_, sorts_least ho hitems hmem hleast hhigh⟩
  rw [split_eq (fun x => !less pivot x) hpivot (by simp [ho.irrefl hmem]), hsort]
  rfl

/-- What is not less than the pivot is bounded by it, and the rest by the bound before. -/
theorem exists_splitSides? {bound : Option α} (hbound : ∀ b ∈ bound, b ∈ S ∧ ∀ x ∈ items, less x b = false) :
    ∃ out, (do
      let high ← quickSort? less limit (some pivot) (items.filter fun x => !less x pivot)
      let low ← quickSort? less limit bound (items.filter fun x => less x pivot)
      pure (low ++ high)) = some out ∧ Sorts less S items out := by
  have hmem : pivot ∈ S := hitems pivot (List.mem_of_getElem? hpivot)
  have hfilter (p : α → Bool) : ∀ x ∈ items.filter p, x ∈ S := fun x hx => hitems x (List.mem_filter.1 hx).1
  obtain ⟨high, hhigh, hhighSorts⟩ := hrest (some pivot) (hfilter fun x => !less x pivot) (by
    rintro _ ⟨⟩
    exact ⟨hmem, fun x hx => by simpa using (List.mem_filter.1 hx).2⟩)
  obtain ⟨low, hlow, hlowSorts⟩ := hrest bound (hfilter fun x => less x pivot) fun b hb =>
    ⟨(hbound b hb).1, fun x hx => (hbound b hb).2 x (List.mem_filter.1 hx).1⟩
  refine ⟨low ++ high, ?_, sorts_append_of_split ho hitems (fun x hx y hy hpx hpy => ?_) hlowSorts hhighSorts⟩
  · rw [hhigh, hlow]
    rfl
  · exact ho.lt_of_lt_of_le (hitems x hx) hmem (hitems y hy) hpx hpy

end Step

/-- A pivot that is not greater than the bound, or that nothing is less than, is not greater than anything in the list. -/
theorem quickSorts (limit : Nat) : QuickSorts less S limit := by
  induction limit with
  | zero =>
    intro items bound hitems _
    unfold quickSort?
    split
    · exact exists_sortPiece? ho hitems
    · exact exists_mergeAtOnce? ho hitems
  | succ limit ih =>
    intro items bound hitems hbound
    unfold quickSort?
    split
    · exact exists_sortPiece? ho hitems
    · rename_i hlong
      obtain ⟨pivot, hpivot⟩ := exists_pivot less hlong
      have hmem : pivot ∈ S := hitems pivot (List.mem_of_getElem? hpivot)
      simp only [hpivot]
      split
      · rename_i hrepeated
        obtain ⟨b, hb, hle⟩ := (Option.any_eq_true _ _).1 hrepeated
        obtain ⟨hbS, hbound⟩ := hbound b hb
        rw [if_pos List.isEmpty_nil]
        refine exists_splitLeast? ho ih hitems hpivot fun x hx => ?_
        exact ho.trans (hitems x hx) hbS hmem (hbound x hx) (by simpa using hle)
      · rw [split_eq (fun x => less x pivot) hpivot (ho.irrefl hmem)]
        split
        · rename_i hempty
          refine exists_splitLeast? ho ih hitems hpivot fun x hx => Bool.eq_false_iff.2 ?_
          exact List.filter_eq_nil_iff.1 (List.isEmpty_iff.1 hempty) x hx
        · exact exists_splitSides? ho ih hitems hpivot hbound

theorem sound_finish? (capacity : Nat) : Finisher.Sound less S ⟨finish? less, capacity⟩ := fun items hitems =>
  quickSorts ho (splitLimit items.length) none hitems fun _ hb => by cases hb

end Split

end TwinShell.Sorting
