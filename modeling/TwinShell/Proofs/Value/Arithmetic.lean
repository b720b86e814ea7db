import Mathlib.Data.Rat.Floor
import TwinShell.Proofs.Decimal
import TwinShell.Session.Eval

/-!
# Arithmetic on integers

An operator on two integers gives the exact result or the overflow error, never a result that wrapped around. Addition, subtraction, multiplication and the opposite are computed exactly and then tested; the quotient is computed in steps on 64-bit words, and here the steps are shown to be exact as well: a quotient rounded towards zero exists unless the least integer is divided by -1, and where it exists neither the remainder nor the correction to the floor leaves the 64 bits.

The quotient is rounded to the floor and the remainder belongs to the one rounded towards zero. So the two fit together only where both roundings agree; elsewhere the sum is off by one divisor.
-/

namespace TwinShell

open Command (binary negated)

namespace Number

variable {x y q : Int64}

/-! ### The quotient -/

/-- Only the least integer divided by -1 has no quotient. -/
theorem quotient?_eq (x y : Int64) :
    quotient? x y = if x = Int64.minValue ∧ y = -1 then none else some (x / y) := by
  split
  · rename_i h
    rw [h.1, h.2, quotient?, Decimal.wordOfInt?_eq_none_iff]
    exact .inr (by decide)
  · rename_i h
    rw [quotient?, Decimal.wordOfInt?_eq_some_iff]
    by_cases hx : x = Int64.minValue
    · exact Int64.toInt_div_of_ne_right x y fun hy => h ⟨hx, hy⟩
    · exact Int64.toInt_div_of_ne_left x y hx

theorem divided_eq (f : Int64 → Int64) (x y : Int64) :
    divided f x y =
      if y = 0 then .error .divisionByZero
      else if x = Int64.minValue ∧ y = -1 then .error .overflow
      else .ok (.int (f (x / y))) := by
  rw [divided, quotient?_eq]
  by_cases hleast : x = Int64.minValue ∧ y = -1
  · simp only [if_pos hleast]
  · simp only [if_neg hleast]

theorem toInt_of_quotient? (hq : quotient? x y = some q) : q.toInt = x.toInt.tdiv y.toInt :=
  Decimal.wordOfInt?_eq_some_iff.1 hq

theorem toInt_ne_zero (hy : y ≠ 0) : y.toInt ≠ 0 :=
  fun h => hy (Int64.toInt_inj.1 h)

theorem mod_eq_zero_iff : x % y = 0 ↔ y.toInt ∣ x.toInt := by
  rw [← Int64.toInt_inj, Int64.toInt_mod, Int64.toInt_zero, Int.dvd_iff_tmod_eq_zero]

/-- A division that leaves a remainder is one by 2 at least, so its quotient can be lowered. -/
theorem neg_lt_quotient (hq : quotient? x y = some q) (hy : y ≠ 0) (hrest : ¬y.toInt ∣ x.toInt) :
    -2 ^ 63 < q.toInt := by
  have htwo : 2 ≤ y.toInt.natAbs := by
    have hone : y.toInt.natAbs ≠ 1 := fun h => hrest (Int.natAbs_dvd.1 (h ▸ Int.one_dvd _))
    have hzero := toInt_ne_zero hy
    omega
  have hhalf : q.toInt.natAbs ≤ x.toInt.natAbs / 2 := by
    rw [toInt_of_quotient? hq, Int.natAbs_tdiv]
    exact Nat.div_le_div_left htwo (by decide)
  have hlow := x.le_toInt
  have hhigh := x.toInt_lt
  omega

theorem toInt_sub_one (hq : -2 ^ 63 < q.toInt) : (q - 1).toInt = q.toInt - 1 := by
  have hhigh := q.toInt_lt
  rw [Int64.toInt_sub, Int64.toInt_one]
  exact Int.bmod_eq_of_le (by omega) (by omega)

/-- The floor is below the quotient rounded towards zero if there is a remainder and the signs differ. -/
theorem fdiv_eq_corrected {a b : Int} (hb : b ≠ 0) :
    a.fdiv b = if ¬b ∣ a ∧ ¬(a < 0 ↔ b < 0) then a.tdiv b - 1 else a.tdiv b := by
  rw [Int.fdiv_eq_tdiv]
  by_cases hdvd : b ∣ a
  · simp [hdvd]
  · rw [if_neg hdvd]
    rcases Int.lt_or_gt_of_ne hb with hneg | hpos
    · have hsign := Int.sign_eq_neg_one_of_neg hneg
      split_ifs <;> omega
    · have hsign := Int.sign_eq_one_of_pos hpos
      split_ifs <;> omega

/-- The corrected quotient is the floor. -/
theorem toInt_floored (hq : quotient? x y = some q) (hy : y ≠ 0) :
    (floored x y q).toInt = x.toInt.fdiv y.toInt := by
  simp only [floored, ne_eq, mod_eq_zero_iff, Int64.lt_iff_toInt_lt, Int64.toInt_zero]
  rw [fdiv_eq_corrected (toInt_ne_zero hy), ← toInt_of_quotient? hq]
  split
  · rename_i h
    exact toInt_sub_one (neg_lt_quotient hq hy h.1)
  · rfl

theorem floor_div (a b : Int) : ⌊(a : ℚ) / b⌋ = a.fdiv b := by
  rcases Int.le_total 0 b with hb | hb
  · rw [Int.floor_div_cast_of_nonneg hb, Int.floor_intCast, Int.fdiv_eq_ediv_of_nonneg a hb]
  · have hneg : (a : ℚ) / b = ((-a : Int) : ℚ) / ((-b : Int) : ℚ) := by push_cast; rw [neg_div_neg_eq]
    rw [hneg, Int.floor_div_cast_of_nonneg (Int.neg_nonneg_of_nonpos hb), Int.floor_intCast,
      ← Int.fdiv_eq_ediv_of_nonneg _ (Int.neg_nonneg_of_nonpos hb), Int.neg_fdiv_neg]

end Number

open Number

variable {x y q r : Int64}

/-! ### Operators -/

/-- The outcome is the integer `n`, or the overflow error if 64 bits cannot hold `n`. -/
inductive IsExact (n : Int) : Except EvalError Value → Prop where
  | fits {w : Int64} (h : w.toInt = n) : IsExact n (.ok (.int w))
  | overflow (h : n < -2 ^ 63 ∨ 2 ^ 63 ≤ n) : IsExact n (.error (.runtime .overflow))

theorem isExact_exact (n : Int) :
    IsExact n (((exact n).map Number.toValue).mapError EvalError.ofArith) := by
  unfold exact
  split
  · rename_i hw
    exact .fits (Decimal.wordOfInt?_eq_some_iff.1 hw)
  · rename_i hnone
    exact .overflow (Decimal.wordOfInt?_eq_none_iff.1 hnone)

theorem binary_arith_int (op : ArithOp) (x y : Int64) :
    binary (.arith op) (.int x) (.int y) =
      ((arithInt op x y).map Number.toValue).mapError EvalError.ofArith :=
  rfl

theorem negated_int (x : Int64) :
    negated (.int x) = ((exact (-x.toInt)).map Number.toValue).mapError EvalError.ofArith :=
  rfl

theorem binary_divided {op : ArithOp} {f : Int64 → Int64}
    (hop : arithInt op x y = divided f x y) :
    binary (.arith op) (.int x) (.int y) =
      if y = 0 then .error .divisionByZero
      else if x = Int64.minValue ∧ y = -1 then .error (.runtime .overflow)
      else .ok (.int (f (x / y))) := by
  rw [binary_arith_int, hop, divided_eq]
  split
  · rfl
  · split <;> rfl

theorem binary_divided_eq_divisionByZero_iff {op : ArithOp} {f : Int64 → Int64}
    (hop : arithInt op x y = divided f x y) :
    binary (.arith op) (.int x) (.int y) = .error .divisionByZero ↔ y = 0 := by
  rw [binary_divided hop]
  split
  · rename_i hy
    exact iff_of_true rfl hy
  · rename_i hy
    split <;> exact iff_of_false nofun hy

theorem binary_divided_eq_overflow_iff {op : ArithOp} {f : Int64 → Int64}
    (hop : arithInt op x y = divided f x y) :
    binary (.arith op) (.int x) (.int y) = .error (.runtime .overflow) ↔
      x = Int64.minValue ∧ y = -1 := by
  rw [binary_divided hop]
  split
  · rename_i hy
    refine iff_of_false nofun fun hleast => ?_
    rw [hleast.2] at hy
    exact absurd hy (by decide)
  · split
    · rename_i hleast
      exact iff_of_true rfl hleast
    · rename_i hleast
      exact iff_of_false nofun hleast

theorem binary_intDiv (x y : Int64) :
    binary (.arith .intDiv) (.int x) (.int y) =
      if y = 0 then .error .divisionByZero
      else if x = Int64.minValue ∧ y = -1 then .error (.runtime .overflow)
      else .ok (.int (floored x y (x / y))) :=
  binary_divided rfl

theorem binary_mod (x y : Int64) :
    binary (.arith .mod) (.int x) (.int y) =
      if y = 0 then .error .divisionByZero
      else if x = Int64.minValue ∧ y = -1 then .error (.runtime .overflow)
      else .ok (.int (x % y)) :=
  binary_divided (f := fun _ => x % y) rfl

theorem binary_div_eq_divisionByZero_iff (x y : Int64) :
    binary (.arith .div) (.int x) (.int y) = .error .divisionByZero ↔ y = 0 := by
  rw [binary_arith_int, arithInt]
  split
  · rename_i hy
    exact iff_of_true rfl hy
  · rename_i hy
    exact iff_of_false nofun hy

theorem binary_sub_one (hq : -2 ^ 63 < q.toInt) :
    binary (.arith .sub) (.int q) (.int 1) = .ok (.int (q - 1)) := by
  have hfits : (q - 1).toInt = q.toInt - (1 : Int64).toInt := toInt_sub_one hq
  rw [binary_arith_int, arithInt, exact, Decimal.wordOfInt?_eq_some_iff.2 hfits]
  rfl

/-- What the operators make of two integers. -/
structure ExactArithmetic (x y : Int64) : Prop where
  add : IsExact (x.toInt + y.toInt) (binary (.arith .add) (.int x) (.int y))
  sub : IsExact (x.toInt - y.toInt) (binary (.arith .sub) (.int x) (.int y))
  mul : IsExact (x.toInt * y.toInt) (binary (.arith .mul) (.int x) (.int y))
  negate : IsExact (-x.toInt) (negated (.int x))
  /-- Nothing can be divided by zero, and only that fails so. -/
  divisionByZero : ∀ op ∈ [ArithOp.div, .intDiv, .mod],
    binary (.arith op) (.int x) (.int y) = .error .divisionByZero ↔ y = 0
  /-- Only one quotient does not fit, and its remainder is refused with it. -/
  overflow : ∀ op ∈ [ArithOp.intDiv, .mod],
    binary (.arith op) (.int x) (.int y) = .error (.runtime .overflow) ↔ x = Int64.minValue ∧ y = -1
  /-- The quotient is rounded to the floor. -/
  intDiv (hy : y ≠ 0) : IsExact ⌊(x.toInt : ℚ) / y.toInt⌋ (binary (.arith .intDiv) (.int x) (.int y))
  /-- The remainder is that of the quotient rounded towards zero. -/
  mod (hy : y ≠ 0) (hfits : ¬(x = Int64.minValue ∧ y = -1)) :
    ∃ r : Int64, binary (.arith .mod) (.int x) (.int y) = .ok (.int r) ∧ r.toInt = x.toInt.tmod y.toInt
  /-- The remainder that decides on the correction of a quotient does not overflow. -/
  remainderStep {q : Int64} (hy : y ≠ 0) (hq : quotient? x y = some q) :
    binary (.arith .mod) (.int x) (.int y) = .ok (.int (x % y))
  /-- Nor does the correction. -/
  correctionStep {q : Int64} (hy : y ≠ 0) (hq : quotient? x y = some q)
    (hcorrected : x % y ≠ 0 ∧ ¬(x < 0 ↔ y < 0)) :
    binary (.arith .sub) (.int q) (.int 1) = .ok (.int (q - 1))

/-- Arithmetic on integers is exact or an error, in every step. -/
theorem exactArithmetic (x y : Int64) : ExactArithmetic x y where
  add := isExact_exact _
  sub := isExact_exact _
  mul := isExact_exact _
  negate := isExact_exact _
  divisionByZero op hop := by
    simp only [List.mem_cons, List.not_mem_nil, or_false] at hop
    rcases hop with rfl | rfl | rfl
    · exact binary_div_eq_divisionByZero_iff x y
    · exact binary_divided_eq_divisionByZero_iff (f := floored x y) rfl
    · exact binary_divided_eq_divisionByZero_iff (f := fun _ => x % y) rfl
  overflow op hop := by
    simp only [List.mem_cons, List.not_mem_nil, or_false] at hop
    rcases hop with rfl | rfl
    · exact binary_divided_eq_overflow_iff (f := floored x y) rfl
    · exact binary_divided_eq_overflow_iff (f := fun _ => x % y) rfl
  intDiv hy := by
    rw [binary_intDiv, if_neg hy, floor_div]
    split
    · rename_i hleast
      rw [hleast.1, hleast.2]
      exact .overflow (.inr (by decide))
    · rename_i hfits
      have hq := (quotient?_eq x y).trans (if_neg hfits)
      exact .fits (toInt_floored hq hy)
  mod hy hfits := by
    rw [binary_mod, if_neg hy, if_neg hfits]
    exact ⟨x % y, rfl, Int64.toInt_mod x y⟩
  remainderStep hy hq := by
    rw [quotient?_eq] at hq
    split at hq
    · cases hq
    · rename_i hfits
      rw [binary_mod, if_neg hy, if_neg hfits]
  correctionStep hy hq hcorrected := by
    have hlow := neg_lt_quotient hq hy (mod_eq_zero_iff.not.1 hcorrected.1)
    exact binary_sub_one hlow

/-- A quotient that is corrected, and one that is not. -/
theorem exactArithmetic_halves :
    (2 : Int64) ≠ 0 ∧
    IsExact ⌊((-7 : Int64).toInt : ℚ) / (2 : Int64).toInt⌋ (.ok (.int (-4))) ∧
    IsExact ⌊((7 : Int64).toInt : ℚ) / (2 : Int64).toInt⌋ (.ok (.int 3)) :=
  ⟨by decide, (exactArithmetic (-7) 2).intDiv (by decide), (exactArithmetic 7 2).intDiv (by decide)⟩

/-! ### Quotient and remainder together -/

/-- The floor of a quotient and the remainder of the one rounded towards zero give the dividend back where both quotients are the same. -/
theorem fdiv_mul_add_tmod {a b : Int} (hb : b ≠ 0) :
    a.fdiv b * b + a.tmod b = if b ∣ a ∨ (a < 0 ↔ b < 0) then a else a - b := by
  have hdivision := Int.tmod_add_tdiv_mul a b
  rw [fdiv_eq_corrected hb]
  by_cases h : b ∣ a ∨ (a < 0 ↔ b < 0)
  · rw [if_pos h, if_neg (by rwa [← not_or, not_not])]
    omega
  · rw [if_neg h, if_pos (not_or.1 h), Int.sub_mul]
    omega

theorem of_binary_intDiv (hq : binary (.arith .intDiv) (.int x) (.int y) = .ok (.int q)) :
    y ≠ 0 ∧ q.toInt = x.toInt.fdiv y.toInt := by
  rw [binary_intDiv] at hq
  split at hq
  · cases hq
  · rename_i hy
    split at hq
    · cases hq
    · rename_i hfits
      cases hq
      exact ⟨hy, toInt_floored ((quotient?_eq x y).trans (if_neg hfits)) hy⟩

theorem of_binary_mod (hr : binary (.arith .mod) (.int x) (.int y) = .ok (.int r)) :
    r.toInt = x.toInt.tmod y.toInt := by
  rw [binary_mod] at hr
  split at hr
  · cases hr
  · split at hr
    · cases hr
    · cases hr
      exact Int64.toInt_mod x y

/-- The quotient and the remainder give the dividend back if it is a multiple of the divisor or both have the same sign; otherwise they are off by the divisor. -/
theorem quotient_mul_add_remainder
    (hq : binary (.arith .intDiv) (.int x) (.int y) = .ok (.int q))
    (hr : binary (.arith .mod) (.int x) (.int y) = .ok (.int r)) :
    (q.toInt * y.toInt + r.toInt = x.toInt ↔ y.toInt ∣ x.toInt ∨ (x < 0 ↔ y < 0)) ∧
    (¬(y.toInt ∣ x.toInt ∨ (x < 0 ↔ y < 0)) → q.toInt * y.toInt + r.toInt = x.toInt - y.toInt) := by
  obtain ⟨hy, hquotient⟩ := of_binary_intDiv hq
  have hzero := toInt_ne_zero hy
  rw [hquotient, of_binary_mod hr, fdiv_mul_add_tmod hzero, Int64.lt_iff_toInt_lt, Int64.lt_iff_toInt_lt,
    Int64.toInt_zero]
  split
  · rename_i h
    exact ⟨iff_of_true rfl h, fun h' => absurd h h'⟩
  · rename_i h
    exact ⟨iff_of_false (by omega) h, fun _ => rfl⟩

/-- Two negative numbers. -/
theorem quotient_mul_add_remainder_negative :
    binary (.arith .intDiv) (.int (-7)) (.int (-2)) = .ok (.int 3) ∧
    binary (.arith .mod) (.int (-7)) (.int (-2)) = .ok (.int (-1)) ∧
    (3 : Int64).toInt * (-2 : Int64).toInt + (-1 : Int64).toInt = (-7 : Int64).toInt :=
  have hq : binary (.arith .intDiv) (.int (-7)) (.int (-2)) = .ok (.int 3) := rfl
  have hr : binary (.arith .mod) (.int (-7)) (.int (-2)) = .ok (.int (-1)) := rfl
  ⟨hq, hr, (quotient_mul_add_remainder hq hr).1.2 (.inr (by decide))⟩

/-- A negative dividend and a positive divisor: -4 and -1 give -9 and not -7. -/
theorem quotient_mul_add_remainder_ne :
    ∃ q r : Int64, binary (.arith .intDiv) (.int (-7)) (.int 2) = .ok (.int q) ∧
      binary (.arith .mod) (.int (-7)) (.int 2) = .ok (.int r) ∧
      q.toInt * (2 : Int64).toInt + r.toInt ≠ (-7 : Int64).toInt :=
  ⟨-4, -1, rfl, rfl, by decide⟩

end TwinShell
