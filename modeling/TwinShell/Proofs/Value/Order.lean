import Mathlib.Data.Prod.Lex
import Mathlib.Data.Int.Order.Basic
import TwinShell.Value.Arith

/-!
# The order of floats

Floats are compared by sign first, then by exponent and then by mantissa, the last two turned around below zero; both zeros have one place, and the infinities stand at the ends. So every float but the NaN has a place in a linear order, and floats compare as their places do.
-/

namespace TwinShell

open Float.Model (UnpackedFloat)

/-- The places of floats: the sign, with the infinities beyond the finite ones, then the exponent and then the mantissa. -/
abbrev FloatPlace : Type := ℤ ×ₗ ℤ ×ₗ ℤ

/-- The place of a float that is taken apart. -/
def unpackedPlace? : UnpackedFloat → Option FloatPlace
  | .notANumber => none
  | .infinity .negative => some (toLex (-2, toLex (0, 0)))
  | .finite .negative mantissa exponent _ => some (toLex (-1, toLex (-exponent, -mantissa)))
  | .zero _ => some (toLex (0, toLex (0, 0)))
  | .finite .positive mantissa exponent _ => some (toLex (1, toLex (exponent, mantissa)))
  | .infinity .positive => some (toLex (2, toLex (0, 0)))

/-- The place of a float in the order. A NaN has none. -/
def floatPlace? (x : Float) : Option FloatPlace := unpackedPlace? x.toModel.unpack

theorem isNone_unpackedPlace? (u : UnpackedFloat) : (unpackedPlace? u).isNone = u.isNaN := by
  rcases u with (_ | _) | _ | _ | ⟨_ | _, m, e, hm⟩ <;> rfl

theorem floatPlace?_eq_none {x : Float} : floatPlace? x = none ↔ x.isNaN :=
  Option.isNone_iff_eq_none.symm.trans (Bool.eq_iff_iff.1 (isNone_unpackedPlace? _))

theorem compare_finitePlace (sign e e' m m' : ℤ) :
    compare (toLex (sign, toLex (e, m)) : FloatPlace) (toLex (sign, toLex (e', m'))) =
      (compare e e').then (compare m m') := by
  have hlex : compare (toLex (sign, toLex (e, m)) : FloatPlace) (toLex (sign, toLex (e', m'))) =
      (compare sign sign).then ((compare e e').then (compare m m')) := rfl
  rw [hlex, compare_eq_iff_eq.2 rfl, Ordering.eq_then]

theorem compare_neg (a b : ℤ) : compare (-a) (-b) = (compare a b).swap := by
  rw [← Std.OrientedOrd.eq_swap]
  rcases lt_trichotomy a b with h | rfl | h
  · rw [compare_gt_iff_gt.2 (Int.neg_lt_neg h), compare_gt_iff_gt.2 h]
  · rw [compare_eq_iff_eq.2 rfl, compare_eq_iff_eq.2 rfl]
  · rw [compare_lt_iff_lt.2 (Int.neg_lt_neg h), compare_lt_iff_lt.2 h]

theorem compare_natCast (m m' : ℕ) : compare (m : ℤ) (m' : ℤ) = compare m m' := by
  rcases lt_trichotomy m m' with h | rfl | h
  · rw [compare_lt_iff_lt.2 h, compare_lt_iff_lt.2 (Int.ofNat_lt.2 h)]
  · rw [compare_eq_iff_eq.2 rfl, compare_eq_iff_eq.2 rfl]
  · rw [compare_gt_iff_gt.2 h, compare_gt_iff_gt.2 (Int.ofNat_lt.2 h)]

theorem compare_unpacked (x y : UnpackedFloat) :
    x.compare y = (unpackedPlace? x).bind fun a => (unpackedPlace? y).map (compare a) := by
  rcases x with (_ | _) | _ | _ | ⟨_ | _, m, e, hm⟩ <;>
    rcases y with (_ | _) | _ | _ | ⟨_ | _, m', e', hm'⟩ <;> try rfl
  case finite.negative.finite.negative =>
    refine .trans ?_ (congrArg some (compare_finitePlace (-1) (-e) (-e') (-m) (-m')).symm)
    rw [compare_neg, compare_neg, compare_natCast, ← Ordering.swap_then]
    rfl
  case finite.positive.finite.positive =>
    refine .trans ?_ (congrArg some (compare_finitePlace 1 e e' m m').symm)
    rw [compare_natCast]
    rfl

theorem compare_unpacked_swap (x y : UnpackedFloat) : y.compare x = (x.compare y).map Ordering.swap := by
  rw [compare_unpacked, compare_unpacked]
  cases unpackedPlace? x with
  | none => cases unpackedPlace? y <;> rfl
  | some a =>
    cases unpackedPlace? y with
    | none => rfl
    | some b => exact congrArg some Std.OrientedOrd.eq_swap

/-- Floats compare as their places do, and not at all if one of them is a NaN. -/
theorem Number.compare?_float (x y : Float) :
    Number.compare? (.float x) (.float y) =
      (floatPlace? x).bind fun a => (floatPlace? y).map (compare a) := by
  rw [floatPlace?, floatPlace?, ← compare_unpacked]
  have hlt (x y : Float) : x < y ↔ x.toModel.unpack.compare y.toModel.unpack = some .lt := by
    refine Iff.trans (b := (x.toModel.unpack.compare y.toModel.unpack == some .lt) = true) ?_ beq_iff_eq
    exact decide_eq_true_iff
  have heq : (x == y) = true ↔ x.toModel.unpack.compare y.toModel.unpack = some .eq :=
    beq_iff_eq (a := x.toModel.unpack.compare y.toModel.unpack)
  have hgt : y < x ↔ x.toModel.unpack.compare y.toModel.unpack = some .gt := by
    rw [hlt, compare_unpacked_swap]
    simp
  simp only [Number.compare?, Number.toFloat, hlt x y, heq, hgt]
  rcases x.toModel.unpack.compare y.toModel.unpack with _ | (_ | _ | _) <;> rfl

theorem Number.compare?_swap (x y : Float) :
    Number.compare? (.float y) (.float x) = (Number.compare? (.float x) (.float y)).map Ordering.swap := by
  rw [Number.compare?_float, Number.compare?_float]
  cases floatPlace? x with
  | none => cases floatPlace? y <;> rfl
  | some p =>
    cases floatPlace? y with
    | none => rfl
    | some q => exact congrArg some Std.OrientedOrd.eq_swap

end TwinShell
