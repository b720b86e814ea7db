import TwinShell.Proofs.Session.Colors
import TwinShell.Proofs.Value.Arithmetic

/-!
# Integers read back

The text of an integer, written behind an assignment, gives the integer again, with one exception. A minus sign is no part of a number: it negates what stands behind it, and the digits of the least integer spell a number that no integer holds. They are read as a float, so the variable gets a float.
-/

namespace TwinShell

open Language

/-- The number that the digits of an integer spell, its sign left out. -/
def spelt (n : Int64) : Number :=
  if n = Int64.minValue then .float 9223372036854775808.0 else .int (Int64.ofNat n.toInt.natAbs)

/-- The expression that the text of an integer is. -/
def integerNode (n : Int64) : Node :=
  if n.toInt < 0 then .negate (.literal (spelt n).toValue) else .literal (spelt n).toValue

/-- The value of that expression. -/
def integerValue (n : Int64) : Value :=
  if n = Int64.minValue then .float (-9223372036854775808.0) else .int n

namespace Language

variable {n : Int64}

/-! ### Reading -/

theorem natAbs_lt_of_ne_minValue (hn : n ≠ Int64.minValue) : n.toInt.natAbs < 0x8000000000000000 := by
  have hlow := n.le_toInt
  have hhigh := n.toInt_lt
  have hleast : n.toInt ≠ -2 ^ 63 := fun h => hn (Int64.toInt_inj.1 h)
  omega

theorem numberKind?_spelt (n : Int64) :
    Cursor.numberKind? (Decimal.digitChars n.toInt.natAbs) false = some (numberToken (spelt n)) := by
  unfold spelt
  split
  · rename_i hn
    rw [hn]
    decide +kernel
  · rename_i hn
    exact Cursor.numberKind?_digits (fun _ hc => Decimal.isDigit_of_mem_digitChars hc)
      (Decimal.readWordChars?_digitChars (natAbs_lt_of_ne_minValue hn))

theorem lexes_spelt (n : Int64) :
    Lexes (Decimal.digitChars n.toInt.natAbs) (numberToken (spelt n)) [] :=
  lexes_digits (fun _ hc => Decimal.isDigit_of_mem_digitChars hc) (Decimal.digitChars_ne_nil _)
    (numberKind?_spelt n) (Follow.nil : Follow 0 [])

theorem isName_natText (m : Nat) : IsName (Decimal.natText m) where
  ne_empty h := Decimal.digitChars_ne_nil m (by
    rw [← String.toList_ofList (l := Decimal.digitChars m)]
    exact String.toList_eq_nil_iff.2 h)
  all_nameChar c hc := by
    rw [Decimal.natText, String.toList_ofList] at hc
    simp [Text.isNameChar, Decimal.isDigit_of_mem_digitChars hc]

/-- Written digits have no zero in front that would have to be kept. -/
theorem isPadded_digitChars (m : Nat) : Parser.isPadded (Decimal.digitChars m) = false := by
  rcases Nat.eq_zero_or_pos m with rfl | hm
  · rfl
  · have hfirst := Decimal.head?_digitChars_ne hm
    unfold Parser.isPadded
    split
    · rename_i heq
      rw [heq] at hfirst
      exact absurd rfl hfirst
    · rfl

theorem not_mem_slash_intText (n : Int) : '/' ∉ (Decimal.intText n).toList := by
  have hdigits : ∀ m, '/' ∉ Decimal.digitChars m := fun m hmem =>
    absurd (Decimal.isDigit_of_mem_digitChars hmem) (by decide)
  unfold Decimal.intText
  split
  · rw [String.toList_ofList]
    exact List.not_mem_cons_of_ne_of_not_mem (by decide) (hdigits _)
  · rw [Decimal.natText, String.toList_ofList]
    exact hdigits _

theorem valueNode_spelt (n : Int64) :
    Parser.valueNode (.literal (spelt n).toValue) (Decimal.digitChars n.toInt.natAbs) =
      .literal (spelt n).toValue := by
  have htrim := trimChars_name (isName_natText n.toInt.natAbs)
  rw [Decimal.natText, String.toList_ofList] at htrim
  cases spelt n with
  | int w => rw [Number.toValue, Parser.valueNode, htrim, isPadded_digitChars]; rfl
  | float x => rfl

theorem reads_integer (n : Int64) (depth : Nat) :
    Reads (Parser.value (.ofDepth (depth + 2))) (Value.int n).text.toList (integerNode n) [] := by
  have hdigits : ∀ c ∈ Decimal.digitChars n.toInt.natAbs, Text.isDigit c :=
    fun _ hc => Decimal.isDigit_of_mem_digitChars hc
  have hoperand : ∀ depth, Reads (Parser.unary (.ofDepth depth)) (Decimal.digitChars n.toInt.natAbs)
      (.literal (spelt n).toValue) [] := fun _ => reads_numberOperand (lexes_spelt n)
  have hplain : ∀ c ∈ [' ', '\t', '[', '$'], c ∉ '-' :: Decimal.digitChars n.toInt.natAbs := by
    intro c hmark hc
    simp only [List.mem_cons, List.not_mem_nil, or_false] at hmark
    rcases List.mem_cons.1 hc with rfl | hc
    · exact absurd hmark (by decide)
    · rcases hmark with rfl | rfl | rfl | rfl <;> exact absurd (hdigits _ hc) (by decide)
  show Reads _ (Decimal.intText n.toInt).toList _ _
  unfold integerNode Decimal.intText
  split
  · rename_i hneg
    rw [String.toList_ofList]
    exact reads_unmarkedValue hplain (.inr ⟨_, reads_operand (reads_negate (hoperand depth)) .nil, rfl⟩)
  · rename_i hpos
    have habs : n.toInt.toNat = n.toInt.natAbs := by omega
    rw [Decimal.natText, String.toList_ofList, habs]
    exact reads_unmarkedValue (fun c hmark hc => hplain c hmark (List.mem_cons_of_mem _ hc))
      (.inr ⟨_, reads_operand (hoperand (depth + 1)) .nil, (valueNode_spelt n).symm⟩)

end Language

/-! ### Evaluation -/

theorem negated_spelt {n : Int64} (hn : n.toInt < 0) :
    Command.negated (spelt n).toValue = .ok (integerValue n) := by
  unfold spelt integerValue
  split
  · rfl
  · rename_i hleast
    have hopposite : -(Int64.ofNat n.toInt.natAbs).toInt = n.toInt := by
      rw [Int64.toInt_ofNat_of_lt (natAbs_lt_of_ne_minValue hleast)]
      omega
    rw [Number.toValue, negated_int, hopposite, Number.exact, Decimal.wordOfInt?_eq_some_iff.2 rfl]
    rfl

theorem spelt_of_nonneg {n : Int64} (hn : ¬n.toInt < 0) : (spelt n).toValue = integerValue n := by
  have hleast : n ≠ Int64.minValue := by
    rintro rfl
    exact hn (by decide)
  have hword : Int64.ofNat n.toInt.natAbs = n := by
    rw [← Int64.toInt_inj, Int64.toInt_ofNat_of_lt (natAbs_lt_of_ne_minValue hleast)]
    omega
  rw [spelt, integerValue, if_neg hleast, if_neg hleast, hword, Number.toValue]

section

variable {β ν : Type} [Hierarchy β] [Viewer ν]

theorem execute_integerNode (n : Int64) (fuel : Nat) (s : Session β ν) :
    Command.execute (fuel + 2) (integerNode n) s = .ok (integerValue n) s := by
  unfold integerNode
  split
  · rename_i hneg
    show Command.settle (Command.negated (spelt n).toValue) s = _
    rw [negated_spelt hneg]
    rfl
  · rename_i hpos
    rw [spelt_of_nonneg hpos]
    rfl

theorem isAssignable_integerValue (n : Int64) : (integerValue n).isAssignable := by
  unfold integerValue
  split <;> rfl

theorem integerValue_eq_iff {n : Int64} : integerValue n = .int n ↔ n ≠ Int64.minValue := by
  unfold integerValue
  split
  · rename_i hleast
    exact iff_of_false nofun (not_not_intro hleast)
  · rename_i hleast
    exact iff_of_true rfl hleast

namespace Session

/-- What the text of an integer leaves in a variable. -/
theorem run_assign_integer (s : Session β ν) {name : String} (hname : IsName name) (n : Int64) :
    run (".var:" ++ name ++ "=" ++ (Value.int n).text) s =
      .ok .null { s with env := s.env.setVariable name (integerValue n) } := by
  have htext : Uncommented (Value.int n).text.toList :=
    uncommented_of_not_mem (not_mem_slash_intText n.toInt)
  refine run_of_ok (parse_assign hname htext (reads_integer n)) ?_
  exact Command.execute_assign (isAssignable_integerValue n) (execute_integerNode n _ s)

/-- The text of an integer is read back as that integer, unless it is the least one. -/
theorem integer_kept_iff (s : Session β ν) {name : String} (hname : IsName name) (n : Int64) :
    ∃ value, run (".var:" ++ name ++ "=" ++ (Value.int n).text) s =
        .ok .null { s with env := s.env.setVariable name value } ∧
      (value = .int n ↔ n ≠ Int64.minValue) :=
  ⟨integerValue n, run_assign_integer s hname n, integerValue_eq_iff⟩

/-- The least integer but one. -/
theorem integer_kept_least_but_one :
    IsName "x" ∧ ∃ s : Session Store Recorder,
      run ".var:x=-9223372036854775807" { hierarchy := .empty, viewer := {} } = .ok .null s ∧
      s.env.bindings.get? "x" = some (.int (-9223372036854775807)) := by
  have hname : IsName "x" := .of_all (by decide) rfl
  obtain ⟨value, hrun, hkept⟩ := integer_kept_iff (β := Store) (ν := Recorder)
    { hierarchy := .empty, viewer := {} } hname (-9223372036854775807)
  rw [hkept.2 (by decide)] at hrun
  exact ⟨hname, _, hrun, (Dict.get?_insert _ _ _ _).trans (if_pos rfl)⟩

/-- The least integer comes back as a float. -/
theorem integer_lost_least :
    ∃ s : Session Store Recorder,
      run ".var:x=-9223372036854775808" { hierarchy := .empty, viewer := {} } = .ok .null s ∧
      s.env.bindings.get? "x" = some (.float (-9223372036854775808.0)) := by
  have hname : IsName "x" := .of_all (by decide) rfl
  have hrun := run_assign_integer (β := Store) (ν := Recorder)
    { hierarchy := .empty, viewer := {} } hname Int64.minValue
  exact ⟨_, hrun, (Dict.get?_insert _ _ _ _).trans (if_pos rfl)⟩

end Session

end

end TwinShell
