import TwinShell.Decimal.Reader
import TwinShell.Decimal.Written

/-!
# Decimals read back

An integer has a 64-bit word exactly if it lies between the bounds. The digits that write a natural number are digits, there is at least one, and reading them gives the number again as long as it fits in 64 bits; digits without a leading zero are those of the number they spell. A decimal with an exponent is read as a float, and no float is shown with one.
-/

namespace TwinShell.Decimal

/-! ### Words -/

theorem fitsWord_iff {n : Int} :
    fitsWord n ↔ -0x8000000000000000 ≤ n ∧ n < 0x8000000000000000 := by
  simp [fitsWord]

theorem wordOfInt?_eq_some_iff {n : Int} {w : Int64} : wordOfInt? n = some w ↔ w.toInt = n := by
  unfold wordOfInt?
  split
  · rename_i hfits
    obtain ⟨hlow, hhigh⟩ := fitsWord_iff.1 hfits
    rw [Option.some.injEq]
    refine ⟨fun h => h ▸ Int64.toInt_ofInt_of_le hlow hhigh, fun h => ?_⟩
    rw [← h, Int64.ofInt_toInt]
  · rename_i hfits
    refine iff_of_false nofun fun h => hfits (fitsWord_iff.2 ?_)
    rw [← h]
    exact ⟨w.le_toInt, w.toInt_lt⟩

theorem wordOfInt?_eq_none_iff {n : Int} :
    wordOfInt? n = none ↔ n < -0x8000000000000000 ∨ 0x8000000000000000 ≤ n := by
  rw [wordOfInt?, ite_eq_right_iff, fitsWord_iff]
  simp only [reduceCtorEq, imp_false]
  omega

/-! ### Digits -/

theorem natOfDigits_digitChars (n : Nat) : natOfDigits (digitChars n) = n :=
  Nat.ofDigitChars_ten_toDigits

theorem digitChars_ne_nil (n : Nat) : digitChars n ≠ [] := Nat.toDigits_ne_nil

theorem isDigit_of_mem_digitChars {n : Nat} {c : Char} (hc : c ∈ digitChars n) :
    Text.isDigit c := by
  have h : c.isDigit := Nat.isDigit_of_mem_toDigits (by decide) (by decide) hc
  simp only [Char.isDigit, Bool.and_eq_true, decide_eq_true_eq] at h
  simp only [Text.isDigit, Bool.and_eq_true, decide_eq_true_eq]
  exact h

theorem takeSign_of_digit {c : Char} {cs : List Char} (hc : Text.isDigit c) :
    takeSign (c :: cs) = (false, c :: cs) := by
  unfold takeSign
  split
  · rename_i heq
    cases heq
    exact absurd hc (by decide)
  · rename_i heq
    cases heq
    exact absurd hc (by decide)
  · rfl

theorem toNat_of_isDigit {c : Char} (hc : Text.isDigit c) : 48 ≤ c.toNat ∧ c.toNat ≤ 57 := by
  simp only [Text.isDigit, Bool.and_eq_true, decide_eq_true_eq, Char.le_def, UInt32.le_iff_toNat_le] at hc
  exact hc

theorem digitValue_lt {c : Char} (hc : Text.isDigit c) : digitValue c < 10 := by
  have hbounds := toNat_of_isDigit hc
  rw [digitValue, show '0'.toNat = 48 from rfl]
  omega

theorem digitChar_digitValue {c : Char} (hc : Text.isDigit c) : Nat.digitChar (digitValue c) = c := by
  have hbounds := toNat_of_isDigit hc
  refine Char.toNat_inj.1 ?_
  rw [Nat.toNat_digitChar_of_lt_ten (digitValue_lt hc), digitValue, show '0'.toNat = 48 from rfl]
  omega

/-- Digits behind those of a positive number are digits of a number again. -/
theorem digitChars_foldl {n : Nat} {digits : List Char} (hn : 0 < n)
    (hdigits : ∀ c ∈ digits, Text.isDigit c) :
    digitChars (digits.foldl (fun n c => 10 * n + digitValue c) n) = digitChars n ++ digits := by
  induction digits generalizing n with
  | nil => rw [List.foldl_nil, List.append_nil]
  | cons c cs ih =>
    obtain ⟨hc, hcs⟩ := List.forall_mem_cons.1 hdigits
    have hlast : digitChars (10 * n + digitValue c) = digitChars n ++ [c] := by
      rw [digitChars, digitChars, ← Nat.toDigits_append_toDigits (by decide) hn (digitValue_lt hc),
        Nat.toDigits_of_lt_base (digitValue_lt hc), digitChar_digitValue hc]
    rw [List.foldl_cons, ih (by omega) hcs, hlast, List.append_assoc, List.singleton_append]

/-- Digits without a leading zero are the digits of the number they spell. -/
theorem digitChars_natOfDigits {digits : List Char} (hdigits : ∀ c ∈ digits, Text.isDigit c)
    (hne : digits ≠ []) (hzero : digits.head? ≠ some '0') : digitChars (natOfDigits digits) = digits := by
  obtain ⟨c, cs, rfl⟩ := List.exists_cons_of_ne_nil hne
  obtain ⟨hc, hcs⟩ := List.forall_mem_cons.1 hdigits
  have hpos : 0 < digitValue c := by
    refine Nat.pos_of_ne_zero fun hvalue => hzero ?_
    rw [List.head?_cons, ← digitChar_digitValue hc, hvalue]
    rfl
  have hfirst : natOfDigits (c :: cs) = cs.foldl (fun n c => 10 * n + digitValue c) (digitValue c) := by
    rw [natOfDigits, List.foldl_cons, Nat.mul_zero, Nat.zero_add]
  rw [hfirst, digitChars_foldl hpos hcs, digitChars, Nat.toDigits_of_lt_base (digitValue_lt hc),
    digitChar_digitValue hc, List.singleton_append]

/-- A positive number is written without a leading zero. -/
theorem head?_digitChars_ne {n : Nat} (hn : 0 < n) : (digitChars n).head? ≠ some '0' := by
  induction n using Nat.strongRecOn with
  | ind n ih =>
    rcases Nat.lt_or_ge n 10 with hlt | hge
    · rw [digitChars, Nat.toDigits_of_lt_base hlt, List.head?_cons, ne_eq, Option.some.injEq]
      intro hzero
      have hvalue := Nat.toNat_digitChar_of_lt_ten hlt
      rw [hzero, show '0'.toNat = 48 from rfl] at hvalue
      omega
    · obtain ⟨c, cs, hdigits⟩ := List.exists_cons_of_ne_nil (digitChars_ne_nil (n / 10))
      have hfirst := ih (n / 10) (by omega) (by omega)
      have hlast : digitChars n = digitChars (n / 10) ++ [Nat.digitChar (n % 10)] :=
        Nat.toDigits_of_base_le (by decide) hge
      rw [hdigits] at hfirst hlast
      rw [hlast]
      exact hfirst

theorem foldl_digitValue_lt {digits : List Char} (hdigits : ∀ c ∈ digits, Text.isDigit c) (n : Nat) :
    digits.foldl (fun n c => 10 * n + digitValue c) n <
      (n + 1) * Nat.pow 10 digits.length := by
  induction digits generalizing n with
  | nil => simp
  | cons c cs ih =>
    obtain ⟨hc, hcs⟩ := List.forall_mem_cons.1 hdigits
    have hvalue := digitValue_lt hc
    calc cs.foldl (fun n c => 10 * n + digitValue c) (10 * n + digitValue c)
      _ < (10 * n + digitValue c + 1) * Nat.pow 10 cs.length := ih hcs _
      _ ≤ (n + 1) * 10 * Nat.pow 10 cs.length := Nat.mul_le_mul_right _ (by omega)
      _ = (n + 1) * Nat.pow 10 (c :: cs).length := by
        rw [Nat.mul_assoc, Nat.mul_comm 10]
        rfl

theorem natOfDigits_lt {digits : List Char} (hdigits : ∀ c ∈ digits, Text.isDigit c) :
    natOfDigits digits < Nat.pow 10 digits.length := by
  have h := foldl_digitValue_lt hdigits 0
  rwa [Nat.zero_add, Nat.one_mul] at h

theorem takeSign_digits {digits : List Char} (hdigits : ∀ c ∈ digits, Text.isDigit c) :
    takeSign digits = (false, digits) := by
  cases digits with
  | nil => rfl
  | cons c cs => exact takeSign_of_digit (hdigits c List.mem_cons_self)

theorem readWordChars?_of_digits {digits : List Char} (hdigits : ∀ c ∈ digits, Text.isDigit c)
    (hne : digits ≠ []) : readWordChars? digits = wordOfInt? (Int.ofNat (natOfDigits digits)) := by
  have hempty : digits.isEmpty = false := by simpa using hne
  have hall : digits.all Text.isDigit = true := List.all_eq_true.2 hdigits
  simp only [readWordChars?, takeSign_digits hdigits, hempty, hall, Bool.not_true,
    Bool.or_false, Bool.false_eq_true, if_false]

theorem readWordChars?_digits {digits : List Char} (hdigits : ∀ c ∈ digits, Text.isDigit c)
    (hne : digits ≠ []) (hfits : natOfDigits digits < 0x8000000000000000) :
    readWordChars? digits = some (Int64.ofNat (natOfDigits digits)) := by
  rw [readWordChars?_of_digits hdigits hne, wordOfInt?_eq_some_iff]
  exact Int64.toInt_ofNat_of_lt hfits

theorem readWordChars?_digitChars {n : Nat} (hn : n < 0x8000000000000000) :
    readWordChars? (digitChars n) = some (Int64.ofNat n) := by
  have hfits : natOfDigits (digitChars n) < 0x8000000000000000 := by
    rw [natOfDigits_digitChars]
    exact hn
  have hread := readWordChars?_digits (fun c hc => isDigit_of_mem_digitChars hc) (digitChars_ne_nil n)
    hfits
  rwa [natOfDigits_digitChars] at hread

theorem intText_ofNat {n : Nat} (hn : n < 0x8000000000000000) :
    intText (Int64.ofNat n).toInt = natText n := by
  rw [Int64.toInt_ofNat_of_lt hn, intText, if_neg (by omega), Int.toNat_natCast]

/-! ### Exponents -/

/-- A letter that can start an exponent. -/
def isExponentMark (c : Char) : Bool := c == 'e' || c == 'E'

theorem isExponentMark_iff {c : Char} : isExponentMark c ↔ c = 'e' ∨ c = 'E' := by
  simp [isExponentMark]

/-- A text without an exponent. -/
abbrev Unmarked (text : List Char) : Prop := ∀ c ∈ text, isExponentMark c = false

theorem unmarked_of_all {text : List Char} (h : text.all (!isExponentMark ·)) : Unmarked text := by
  simpa using h

theorem unmarked_digits {digits : List Char} (hdigits : ∀ c ∈ digits, Text.isDigit c) :
    Unmarked digits := by
  intro c hc
  rw [Bool.eq_false_iff]
  intro hmark
  rcases isExponentMark_iff.1 hmark with rfl | rfl <;> exact absurd (hdigits _ hc) (by decide)

theorem unmarked_digitChars (n : Nat) : Unmarked (digitChars n) :=
  unmarked_digits fun _ hc => isDigit_of_mem_digitChars hc

theorem unmarked_intText (n : Int) : Unmarked (intText n).toList := by
  unfold intText
  split
  · rw [String.toList_ofList]
    exact List.forall_mem_cons.2 ⟨rfl, unmarked_digitChars _⟩
  · rw [natText, String.toList_ofList]
    exact unmarked_digitChars _

theorem unmarked_positional (d : Scaled) : Unmarked d.positional := by
  have hdigits := unmarked_digitChars d.digits
  have hzeros : ∀ n, Unmarked (List.replicate n '0') := by
    intro n c hc
    rw [List.eq_of_mem_replicate hc]
    rfl
  simp only [Scaled.positional]
  split
  · exact List.forall_mem_append.2 ⟨hdigits, hzeros _⟩
  · split
    · refine List.forall_mem_append.2 ⟨fun c hc => hdigits c (List.mem_of_mem_take hc), ?_⟩
      exact List.forall_mem_cons.2 ⟨rfl, fun c hc => hdigits c (List.mem_of_mem_drop hc)⟩
    · refine List.forall_mem_append.2 ⟨?_, hdigits⟩
      exact List.forall_mem_cons.2 ⟨rfl, List.forall_mem_cons.2 ⟨rfl, hzeros _⟩⟩

/-- A float is shown in positional notation, whatever its size. -/
theorem unmarked_showFloat (x : Float) : Unmarked (showFloat x).toList := by
  unfold showFloat
  split
  · exact unmarked_of_all rfl
  · split
    · split <;> exact unmarked_of_all rfl
    · have hpositional : ∀ d : Scaled, d.digits = 0 ∨ shown.positional d.exponent = true :=
        fun _ => .inr rfl
      rw [FloatFormat.write, if_pos (hpositional _), String.toList_append, String.toList_append,
        String.toList_ofList]
      refine List.forall_mem_append.2 ⟨List.forall_mem_append.2 ⟨?_, unmarked_positional _⟩, ?_⟩
      · split <;> exact unmarked_of_all rfl
      · split <;> exact unmarked_of_all rfl

theorem readExponent?_digits {mark : Char} {power : List Char} (hmark : isExponentMark mark)
    (hpower : ∀ c ∈ power, Text.isDigit c) (hne : power ≠ []) :
    readExponent? (mark :: power) = some (Int.ofNat (natOfDigits power)) := by
  have hletter : ¬(mark ≠ 'e' ∧ mark ≠ 'E') := by
    rintro ⟨hlower, hupper⟩
    exact (isExponentMark_iff.1 hmark).elim hlower hupper
  have hempty : power.isEmpty = false := by simpa using hne
  have hall : power.all Text.isDigit = true := List.all_eq_true.2 hpower
  simp only [readExponent?, if_neg hletter, takeSign_digits hpower, hempty, hall, Bool.not_true,
    Bool.or_false, Bool.false_eq_true, if_false]

/-- Digits, a mark and digits are read as a float. -/
theorem exists_readFloatChars? {whole power : List Char} {mark : Char}
    (hwhole : ∀ c ∈ whole, Text.isDigit c) (hne : whole ≠ []) (hmark : isExponentMark mark)
    (hpower : ∀ c ∈ power, Text.isDigit c) (hpowerNe : power ≠ []) :
    ∃ x, readFloatChars? (whole ++ mark :: power) = some x := by
  have hdigit : Text.isDigit mark = false := by
    rw [Bool.eq_false_iff]
    intro hdigit
    rw [unmarked_digits (List.forall_mem_singleton.2 hdigit) mark List.mem_cons_self] at hmark
    cases hmark
  have htake : (whole ++ mark :: power).takeWhile Text.isDigit = whole := by
    rw [List.takeWhile_append_of_pos hwhole, List.takeWhile_cons_of_neg (by simp [hdigit]),
      List.append_nil]
  have hdrop : (whole ++ mark :: power).dropWhile Text.isDigit = mark :: power := by
    rw [List.dropWhile_append_of_pos hwhole, List.dropWhile_cons_of_neg (by simp [hdigit])]
  obtain ⟨x, hmagnitude⟩ : ∃ x, readMagnitude? (whole ++ mark :: power) = some x := by
    have hpoint : mark ≠ '.' := by
      rintro rfl
      cases hmark
    have hempty : whole.isEmpty = false := by simpa using hne
    simp only [readMagnitude?, htake, hdrop, hempty]
    split
    · rename_i heq
      exact absurd (List.cons.inj heq).1 hpoint
    · rw [readExponent?_digits hmark hpower hpowerNe]
      exact ⟨_, rfl⟩
  have hsign : takeSign (whole ++ mark :: power) = (false, whole ++ mark :: power) := by
    obtain ⟨c, cs, rfl⟩ := List.exists_cons_of_ne_nil hne
    exact takeSign_of_digit (hwhole c List.mem_cons_self)
  simp only [readFloatChars?, hsign, hmagnitude, Bool.false_eq_true, if_false]
  split
  · exact ⟨_, rfl⟩
  · split
    · exact ⟨_, rfl⟩
    · exact ⟨_, rfl⟩

end TwinShell.Decimal
