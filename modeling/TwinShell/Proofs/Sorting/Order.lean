import Mathlib.Data.Set.Defs
import TwinShell.Sorting.Run

/-!
# What it means to sort

The test by which items are sorted has to be an order only on the items that there are. Items of which none is less than the other are on one level. A list sorts another one if no item in it is less than one before it and the items of each level are those of the other list, in the order that they have there. There is only one such list, so that lists merged from the front and from the back are the same.
-/

namespace TwinShell.Sorting

variable {α : Type}

/-- A test is an order on some items: it does not go both ways between two of them, and what is not less than an item, which is not less than another one, is not less than that one. -/
structure IsOrder (less : α → α → Bool) (S : Set α) : Prop where
  asymm {a b : α} (ha : a ∈ S) (hb : b ∈ S) (hab : less a b) : less b a = false
  trans {a b c : α} (ha : a ∈ S) (hb : b ∈ S) (hc : c ∈ S) (hab : less a b = false)
    (hbc : less b c = false) : less a c = false

/-- Whether none of two items is less than the other. -/
def level (less : α → α → Bool) (x y : α) : Bool := !less x y && !less y x

theorem level_iff {less : α → α → Bool} {x y : α} : level less x y ↔ less x y = false ∧ less y x = false := by
  simp [level]

/-- No item of a list is less than one before it. -/
def Upward (less : α → α → Bool) (items : List α) : Prop := items.Pairwise fun a b => less b a = false

/-- The items of each level are the same in two lists, and in the same order. -/
def SameLevels (less : α → α → Bool) (S : Set α) (items out : List α) : Prop :=
  ∀ x ∈ S, out.filter (level less x) = items.filter (level less x)

/-- A list has the items of another one in order. -/
structure Sorts (less : α → α → Bool) (S : Set α) (items out : List α) : Prop where
  inside : ∀ x ∈ out, x ∈ S
  upward : Upward less out
  levels : SameLevels less S items out

variable {less : α → α → Bool} {S : Set α} {items items' out out' : List α} {x y z : α}

/-! ### Levels -/

namespace SameLevels

theorem refl (items : List α) : SameLevels less S items items := fun _ _ => rfl

theorem trans (h : SameLevels less S items items') (h' : SameLevels less S items' out) :
    SameLevels less S items out :=
  fun x hx => (h' x hx).trans (h x hx)

theorem append (h : SameLevels less S items out) (h' : SameLevels less S items' out') :
    SameLevels less S (items ++ items') (out ++ out') := by
  intro x hx
  rw [List.filter_append, List.filter_append, h x hx, h' x hx]

end SameLevels

namespace IsOrder

variable (ho : IsOrder less S)
include ho

theorem irrefl (hx : x ∈ S) : less x x = false :=
  Bool.eq_false_iff.2 fun h => Bool.false_ne_true ((ho.asymm hx hx h).symm.trans h)

theorem level_self (hx : x ∈ S) : level less x x := level_iff.2 ⟨ho.irrefl hx, ho.irrefl hx⟩

/-- Being less goes on below what is not less. -/
theorem lt_of_lt_of_le (hx : x ∈ S) (hy : y ∈ S) (hz : z ∈ S) (hxy : less x y) (hyz : less z y = false) :
    less x z := by
  cases h : less x z with
  | true => rfl
  | false =>
    rw [ho.trans hx hz hy h hyz] at hxy
    cases hxy

theorem lt_trans (hx : x ∈ S) (hy : y ∈ S) (hz : z ∈ S) (hxy : less x y) (hyz : less y z) : less x z :=
  ho.lt_of_lt_of_le hx hy hz hxy (ho.asymm hy hz hyz)

/-- Items of one level are not less than each other. -/
theorem not_lt_of_level (hx : x ∈ S) (hy : y ∈ S) (hz : z ∈ S) (hzx : level less z x)
    (hzy : level less z y) : less x y = false :=
  ho.trans hx hz hy (level_iff.1 hzx).2 (level_iff.1 hzy).1

theorem flip : IsOrder (fun a b => less b a) S where
  asymm ha hb hab := ho.asymm hb ha hab
  trans ha hb hc hab hbc := ho.trans hc hb ha hbc hab

theorem mem_of_sameLevels (h : SameLevels less S items out) (hx : x ∈ items) (hxS : x ∈ S) : x ∈ out := by
  have hlevel : x ∈ items.filter (level less x) := List.mem_filter.2 ⟨hx, ho.level_self hxS⟩
  rw [← h x hxS] at hlevel
  exact (List.mem_filter.1 hlevel).1

theorem perm_of_sameLevels (h : SameLevels less S items out) (hitems : ∀ x ∈ items, x ∈ S)
    (hout : ∀ x ∈ out, x ∈ S) : out.Perm items := by
  classical
  refine List.perm_iff_count.2 fun x => ?_
  by_cases hx : x ∈ S
  · rw [← List.count_filter (ho.level_self hx), h x hx, List.count_filter (ho.level_self hx)]
  · rw [List.count_eq_zero.2 fun hmem => hx (hout x hmem), List.count_eq_zero.2 fun hmem => hx (hitems x hmem)]

/-- The heads of two lists in order with the same levels are on one level, so they are the first of it in both. -/
theorem eq_of_sameLevels (hout : ∀ x ∈ out, x ∈ S) (hout' : ∀ x ∈ out', x ∈ S) (h : SameLevels less S out' out)
    (hupward : Upward less out) (hupward' : Upward less out') : out = out' := by
  induction out generalizing out' with
  | nil =>
    refine (List.eq_nil_iff_forall_not_mem.2 fun x hx => ?_).symm
    exact absurd (ho.mem_of_sameLevels h hx (hout' x hx)) List.not_mem_nil
  | cons x rest ih =>
    have hxS : x ∈ S := hout x List.mem_cons_self
    have hx : x ∈ out' :=
      ho.mem_of_sameLevels (fun z hz => (h z hz).symm) List.mem_cons_self hxS
    cases out' with
    | nil => exact absurd hx List.not_mem_nil
    | cons y rest' =>
      have hyS : y ∈ S := hout' y List.mem_cons_self
      have hy : y ∈ x :: rest := ho.mem_of_sameLevels h List.mem_cons_self hyS
      have hfirst : ∀ {a b : α} {items : List α}, b ∈ S → Upward less (b :: items) → a ∈ b :: items →
          less a b = false := by
        intro a b items hb hupward ha
        rcases List.mem_cons.1 ha with rfl | ha
        · exact ho.irrefl hb
        · exact List.rel_of_pairwise_cons hupward ha
      have hlevel : level less x y :=
        level_iff.2 ⟨hfirst hyS hupward' hx, hfirst hxS hupward hy⟩
      obtain rfl : x = y := by
        have hheads := h x hxS
        rw [List.filter_cons_of_pos (ho.level_self hxS), List.filter_cons_of_pos hlevel] at hheads
        exact (List.cons_eq_cons.1 hheads).1
      refine congrArg (x :: ·) (ih (List.forall_mem_cons.1 hout).2
        (List.forall_mem_cons.1 hout').2 (fun z hz => ?_) hupward.of_cons hupward'.of_cons)
      have htails := h z hz
      by_cases hzx : level less z x
      · rw [List.filter_cons_of_pos hzx, List.filter_cons_of_pos hzx] at htails
        exact (List.cons_eq_cons.1 htails).2
      · rwa [List.filter_cons_of_neg hzx, List.filter_cons_of_neg hzx] at htails

end IsOrder

/-! ### Sorted lists -/

namespace Sorts

theorem of_upward (hitems : ∀ x ∈ items, x ∈ S) (h : Upward less items) : Sorts less S items items :=
  ⟨hitems, h, .refl items⟩

theorem trans_levels (h : SameLevels less S items items') (h' : Sorts less S items' out) :
    Sorts less S items out :=
  ⟨h'.inside, h'.upward, h.trans h'.levels⟩

theorem perm (ho : IsOrder less S) (h : Sorts less S items out) (hitems : ∀ x ∈ items, x ∈ S) :
    out.Perm items :=
  ho.perm_of_sameLevels h.levels hitems h.inside

theorem length (ho : IsOrder less S) (h : Sorts less S items out) (hitems : ∀ x ∈ items, x ∈ S) :
    out.length = items.length :=
  (h.perm ho hitems).length_eq

/-- There is only one list that sorts another one. -/
theorem unique (ho : IsOrder less S) (h : Sorts less S items out) (h' : Sorts less S items out') :
    out = out' :=
  ho.eq_of_sameLevels h.inside h'.inside (fun x hx => (h.levels x hx).trans (h'.levels x hx).symm)
    h.upward h'.upward

theorem append (h : Sorts less S items out) (h' : Sorts less S items' out')
    (hle : ∀ x ∈ out, ∀ y ∈ out', less y x = false) : Sorts less S (items ++ items') (out ++ out') where
  inside := List.forall_mem_append.2 ⟨h.inside, h'.inside⟩
  upward := List.pairwise_append.2 ⟨h.upward, h'.upward, hle⟩
  levels := h.levels.append h'.levels

/-- A list sorted downwards, with each level turned around, is sorted when it is turned around itself. -/
theorem reverse (h : Sorts (fun a b => less b a) S items out) : Sorts less S items.reverse out.reverse where
  inside x hx := h.inside x (List.mem_reverse.1 hx)
  upward := List.pairwise_reverse.2 h.upward
  levels x hx := by
    have hlevel : level less x = level (fun a b => less b a) x := by
      funext y
      exact Bool.and_comm _ _
    rw [List.filter_reverse, List.filter_reverse, hlevel, h.levels x hx]

end Sorts

/-! ### Merging -/

/-- Two lists are merged in the same way if they change their places with their roles. -/
theorem merge_swap (takeFirst : α → α → Bool) (xs ys : List α) :
    (ys.merge xs fun y x => !takeFirst x y) = xs.merge ys takeFirst := by
  induction xs generalizing ys with
  | nil => rw [List.merge_right, List.nil_merge]
  | cons x xs ihx =>
    induction ys with
    | nil => rw [List.merge_right, List.nil_merge]
    | cons y ys ihy =>
      rw [List.cons_merge_cons, List.cons_merge_cons, ihx, ihy]
      cases takeFirst x y <;> rfl

section Merge

variable (ho : IsOrder less S) {xs ys : List α}
include ho

theorem upward_merge (hxs : ∀ x ∈ xs, x ∈ S) (hys : ∀ y ∈ ys, y ∈ S) (hx : Upward less xs)
    (hy : Upward less ys) : Upward less (xs.merge ys fun x y => !less y x) := by
  induction xs generalizing ys with
  | nil => rwa [List.nil_merge]
  | cons x xs ihx =>
    induction ys with
    | nil => rwa [List.merge_right]
    | cons y ys ihy =>
      obtain ⟨hxS, hxsS⟩ := List.forall_mem_cons.1 hxs
      obtain ⟨hyS, hysS⟩ := List.forall_mem_cons.1 hys
      rw [List.cons_merge_cons]
      split
      · rename_i hyx
        refine List.pairwise_cons.2 ⟨fun z hz => ?_, ihx hxsS hys hx.of_cons hy⟩
        rcases List.mem_merge.1 hz with hz | hz
        · exact List.rel_of_pairwise_cons hx hz
        · have hle : less y x = false := by simpa using hyx
          rcases List.mem_cons.1 hz with rfl | hz'
          · exact hle
          · exact ho.trans (hysS z hz') hyS hxS (List.rel_of_pairwise_cons hy hz') hle
      · rename_i hyx
        have hlt : less y x := by simpa using hyx
        refine List.pairwise_cons.2 ⟨fun z hz => ?_, ihy hysS hy.of_cons⟩
        rcases List.mem_merge.1 hz with hz | hz
        · rcases List.mem_cons.1 hz with rfl | hz
          · exact ho.asymm hyS hxS hlt
          · exact ho.trans (hxsS z hz) hxS hyS (List.rel_of_pairwise_cons hx hz) (ho.asymm hyS hxS hlt)
        · exact List.rel_of_pairwise_cons hy hz

/-- An item of the second list that goes before one of the first list is less than that and all after it, so they are not on its level. -/
theorem sameLevels_merge (hxs : ∀ x ∈ xs, x ∈ S) (hys : ∀ y ∈ ys, y ∈ S) (hx : Upward less xs) :
    SameLevels less S (xs ++ ys) (xs.merge ys fun x y => !less y x) := by
  intro z hz
  induction xs generalizing ys with
  | nil => rw [List.nil_merge, List.nil_append]
  | cons x xs ihx =>
    induction ys with
    | nil => rw [List.merge_right, List.append_nil]
    | cons y ys ihy =>
      obtain ⟨hxS, hxsS⟩ := List.forall_mem_cons.1 hxs
      obtain ⟨hyS, hysS⟩ := List.forall_mem_cons.1 hys
      rw [List.cons_merge_cons]
      split
      · rw [List.cons_append, List.filter_cons, List.filter_cons, ihx hxsS hys hx.of_cons]
      · rename_i hyx
        have hlt : less y x := by simpa using hyx
        rw [List.filter_cons, ihy hysS]
        by_cases hzy : level less z y
        · have hnone : (x :: xs).filter (level less z) = [] := by
            refine List.filter_eq_nil_iff.2 fun a ha hza => ?_
            have hyfirst : less y a := by
              rcases List.mem_cons.1 ha with rfl | ha'
              · exact hlt
              · exact ho.lt_of_lt_of_le hyS hxS (hxsS a ha') hlt (List.rel_of_pairwise_cons hx ha')
            rw [ho.not_lt_of_level hyS (hxs a ha) hz hzy hza] at hyfirst
            cases hyfirst
          rw [if_pos hzy, List.filter_append, List.filter_append, hnone, List.nil_append, List.nil_append,
            List.filter_cons_of_pos hzy]
        · rw [if_neg hzy, List.filter_append, List.filter_append, List.filter_cons_of_neg hzy]

theorem Sorts.merge (h : Sorts less S items out) (h' : Sorts less S items' out') :
    Sorts less S (items ++ items') (out.merge out' fun x y => !less y x) where
  inside x hx := (List.mem_merge.1 hx).elim (h.inside x) (h'.inside x)
  upward := upward_merge ho h.inside h'.inside h.upward h'.upward
  levels := (h.levels.append h'.levels).trans (sameLevels_merge ho h.inside h'.inside h.upward)

/-- The same lists merged from the back. -/
theorem Sorts.merge_back (h : Sorts less S items out) (h' : Sorts less S items' out') :
    Sorts less S (items ++ items') (out.reverse.merge out'.reverse fun x y => less y x).reverse := by
  have hflip : Sorts (fun a b => less b a) S items.reverse out.reverse := h.reverse
  have hflip' : Sorts (fun a b => less b a) S items'.reverse out'.reverse := h'.reverse
  have hmerge := (hflip'.merge ho.flip hflip).reverse
  rwa [← List.reverse_append, List.reverse_reverse, merge_swap] at hmerge

end Merge

end TwinShell.Sorting
