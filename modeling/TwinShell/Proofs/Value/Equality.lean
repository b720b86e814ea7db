import Mathlib.Data.List.Forall2
import TwinShell.Value.Arith

/-!
# Equality of values

Equality is meant to be structural, an integer and a float being compared by value. This module says where it is not: at the top the rule for an integer and a float is applied, inside a list it is not, and the two are then different whatever their values. So two lists are equal exactly if they are as long, their items are equal place by place, and nowhere, at whatever depth, an integer faces a float.
-/

namespace TwinShell.Value

/-- Whether one of the values is an integer and the other a float. -/
def isMixed : Value → Value → Bool
  | .int _, .float _ => true
  | .float _, .int _ => true
  | _, _ => false

/-- Equality within one type is equality without the rule for an integer and a float. -/
theorem same_iff {v w : Value} : same v w ↔ equal v w ∧ ¬isMixed v w := by
  unfold equal
  split
  · exact iff_of_false nofun fun h => h.2 rfl
  · exact iff_of_false nofun fun h => h.2 rfl
  · rename_i hint hfloat
    refine ⟨fun h => ⟨h, fun hmixed => ?_⟩, And.left⟩
    unfold isMixed at hmixed
    split at hmixed
    · exact hint _ _ rfl rfl
    · exact hfloat _ _ rfl rfl
    · cases hmixed

theorem sameList_iff {xs ys : List Value} :
    sameList xs ys ↔ List.Forall₂ (fun x y => same x y) xs ys := by
  induction xs generalizing ys with
  | nil => cases ys <;> simp [sameList]
  | cons x xs ih =>
    cases ys with
    | nil => simp [sameList]
    | cons y ys => rw [sameList, Bool.and_eq_true, ih, List.forall₂_cons]

/-! ### Equality throughout -/

mutual

/-- Structural equality in which an integer and a float are compared by value wherever they stand. -/
def alike : Value → Value → Bool
  | .list as, .list bs => alikeItems as bs
  | a, b => equal a b

def alikeItems : List Value → List Value → Bool
  | [], [] => true
  | a :: as, b :: bs => alike a b && alikeItems as bs
  | _, _ => false

end

mutual

/-- Whether an integer faces a float somewhere. -/
def mixes : Value → Value → Bool
  | .list as, .list bs => mixesItems as bs
  | a, b => isMixed a b

def mixesItems : List Value → List Value → Bool
  | a :: as, b :: bs => mixes a b || mixesItems as bs
  | _, _ => false

end

mutual

theorem same_iff_alike : ∀ v w : Value, same v w ↔ alike v w ∧ ¬mixes v w
  | .list as, .list bs => by
    rw [same, alike, mixes]
    exact sameList_iff_alike as bs
  | .null, w | .bool _, w | .int _, w | .float _, w | .str _, w | .vector _, w | .object _, w => by
    rw [alike, mixes]
    · exact same_iff
    all_goals nofun
  | .list _, .null | .list _, .bool _ | .list _, .int _ | .list _, .float _ | .list _, .str _
  | .list _, .vector _ | .list _, .object _ => by
    rw [alike, mixes]
    · exact same_iff
    all_goals nofun

theorem sameList_iff_alike : ∀ as bs : List Value, sameList as bs ↔ alikeItems as bs ∧ ¬mixesItems as bs
  | [], [] => by simp [sameList, alikeItems, mixesItems]
  | a :: as, b :: bs => by
    rw [sameList, alikeItems, mixesItems, Bool.and_eq_true, Bool.and_eq_true, Bool.or_eq_true, not_or,
      same_iff_alike a b, sameList_iff_alike as bs, and_and_and_comm]
  | [], _ :: _ => by simp [sameList, alikeItems]
  | _ :: _, [] => by simp [sameList, alikeItems]

end

/-- Two lists are equal exactly if their items are, place by place, and no integer faces a float; the items themselves are then alike throughout, and no integer faces a float at any depth. -/
theorem equal_list_iff (xs ys : List Value) :
    (equal (.list xs) (.list ys) ↔ List.Forall₂ (fun x y => equal x y ∧ ¬isMixed x y) xs ys) ∧
    (equal (.list xs) (.list ys) ↔ List.Forall₂ (fun x y => alike x y ∧ ¬mixes x y) xs ys) := by
  have hequal : equal (.list xs) (.list ys) = sameList xs ys := by rw [equal, same] <;> nofun
  rw [hequal, sameList_iff]
  simp only [← same_iff, ← same_iff_alike, and_self]

/-- A text and a number, once as an integer and once as a float: the items are equal and the lists are not. -/
theorem equal_list_ne :
    List.Forall₂ (fun x y => equal x y) [.str "a", .int 1] [.str "a", .float 1.0] ∧
    equal (.list [.str "a", .int 1]) (.list [.str "a", .float 1.0]) = false := by
  refine ⟨.cons (by decide) (.cons (by decide +kernel) .nil), by decide⟩

end TwinShell.Value
