import TwinShell.Proofs.Language.Colors
import TwinShell.Proofs.Language.Scanning

/-!
# Numbers in expressions and in texts

A number is read in two ways: as a token of an expression, and from a text that a value holds. Both find the same number, integer or float, in the same characters, with one exception: the underscores of a token are left out before it is read, and those of a text are not, so a text with an underscore holds no number at all. What carries the comparison is the shape of a token: it starts with a digit or a point, so it has no sign, and it has a point or an exponent exactly if it is read as a float without regard to its size.
-/

namespace TwinShell

variable {cs : List Char}

/-- What fails a test is not dropped. -/
theorem mem_dropWhile {p : Char → Bool} {c : Char} (hc : c ∈ cs) (hp : p c = false) : c ∈ cs.dropWhile p := by
  rw [← List.takeWhile_append_dropWhile (p := p) (l := cs), List.mem_append] at hc
  refine hc.resolve_left fun htaken => Bool.false_ne_true (hp.symm.trans ?_)
  exact List.all_eq_true.1 List.all_takeWhile _ htaken

/-! ### Texts with an underscore -/

namespace Decimal

theorem underscore_mem_takeSign (h : '_' ∈ cs) : '_' ∈ (takeSign cs).2 := by
  unfold takeSign
  split
  · exact (List.mem_cons.1 h).resolve_left (by decide)
  · exact (List.mem_cons.1 h).resolve_left (by decide)
  · exact h

theorem all_isDigit_of_underscore (h : '_' ∈ cs) : cs.all Text.isDigit = false :=
  List.all_eq_false.2 ⟨'_', h, by decide⟩

theorem readWordChars?_of_underscore (h : '_' ∈ cs) : readWordChars? cs = none := by
  simp only [readWordChars?, all_isDigit_of_underscore (underscore_mem_takeSign h), Bool.not_false,
    Bool.or_true, if_true]

theorem readExponent?_of_underscore (h : '_' ∈ cs) : readExponent? cs = none := by
  cases cs with
  | nil => cases h
  | cons c cs =>
    simp only [readExponent?]
    split
    · rfl
    · rename_i hmark
      have hpower : '_' ∈ cs := (List.mem_cons.1 h).resolve_left (by
        rintro rfl
        exact hmark ⟨by decide, by decide⟩)
      simp only [all_isDigit_of_underscore (underscore_mem_takeSign hpower), Bool.not_false, Bool.or_true,
        if_true]

/-- No digits go past an underscore, so it is left for the exponent, where it does not fit. -/
theorem readMagnitude?_of_underscore (h : '_' ∈ cs) : readMagnitude? cs = none := by
  have hrest := mem_dropWhile (p := Text.isDigit) h (by decide)
  simp only [readMagnitude?]
  split
  · rename_i more heq
    rw [heq] at hrest
    have hmore := mem_dropWhile (p := Text.isDigit) ((List.mem_cons.1 hrest).resolve_left (by decide))
      (by decide)
    simp only [readExponent?_of_underscore hmore, Option.map_none, ite_self]
  · simp only [readExponent?_of_underscore hrest, Option.map_none, ite_self]

theorem readFloatChars?_of_underscore (h : '_' ∈ cs) : readFloatChars? cs = none := by
  have hbody := underscore_mem_takeSign h
  have hword : '_' ∈ (takeSign cs).2.map lowerLetter := List.mem_map.2 ⟨'_', hbody, rfl⟩
  have hne : ∀ word : String, '_' ∉ word.toList → (takeSign cs).2.map lowerLetter ≠ word.toList :=
    fun word hplain heq => hplain (heq ▸ hword)
  simp only [readFloatChars?, hne "inf" (by decide), hne "infinity" (by decide), hne "nan" (by decide),
    or_self, if_false, readMagnitude?_of_underscore hbody, Option.map_none]

end Decimal

/-- A character that is no blank is still there in the trimmed text. -/
theorem Text.mem_trim {text : String} {c : Char} (hc : c ∈ text.toList) (hblank : Text.isBlank c = false) :
    c ∈ (Text.trim text).toList := by
  rw [Text.trim, Text.trimBy, String.toList_ofList, Text.trimChars, Text.dropEndWhile, List.mem_reverse]
  exact mem_dropWhile (List.mem_reverse.2 (mem_dropWhile hc hblank)) hblank

/-- A text with an underscore holds no number. -/
theorem Number.read?_of_underscore {text : String} (h : '_' ∈ text.toList) : Number.read? text = none := by
  have htrim := Text.mem_trim h (by decide)
  simp only [Number.read?, Decimal.readWord?, Decimal.readWordChars?_of_underscore htrim,
    Decimal.readFloat?, Decimal.readFloatChars?_of_underscore htrim, Option.map_none, ite_self]

/-! ### The characters of a token -/

namespace Language

def TokenKind.isNumber : TokenKind → Bool
  | .int _ | .float _ => true
  | _ => false

theorem isNumber_numberToken (x : Number) : (numberToken x).isNumber := by cases x <;> rfl

theorem isForeign_numberToken (x : Number) : (numberToken x).isForeign = false := by cases x <;> rfl

namespace Cursor

variable {start c : Cursor} {x : Number}

/-- A number that no letter makes text is what its characters are read as. -/
theorem text_of_endNumber {isFloat : Bool} (h : (start.endNumber c isFloat).1.kind = numberToken x) :
    (start.endNumber c isFloat).1.text.toList = start.charsSince c ∧
      numberKind? (start.charsSince c) isFloat = some (numberToken x) := by
  by_cases hletter : c.nextIs Text.isLetter
  · have hforeign : (start.endNumber c isFloat).1.kind.isForeign := isForeign_endNumber hletter isFloat
    rw [h, isForeign_numberToken] at hforeign
    cases hforeign
  · simp only [endNumber, if_neg hletter] at h ⊢
    split at h
    · rename_i kind hkind
      rw [hkind]
      exact ⟨String.toList_ofList, congrArg some h⟩
    · have hforeign := isForeign_numberToken x
      rw [← h] at hforeign
      cases hforeign

/-! ### Tokens that are no numbers -/

theorem isNumber_word (start : Cursor) : start.word.1.kind.isNumber = false := by
  unfold word
  split
  · rfl
  · split
    · rfl
    · split <;> rfl

theorem isNumber_doubled {second : Char} {kind : TokenKind} {single : Option TokenKind}
    (hkind : kind.isNumber = false) (hsingle : ∀ kind ∈ single, kind.isNumber = false) :
    (start.doubled second kind single).1.kind.isNumber = false := by
  unfold doubled
  split
  · exact hkind
  · split
    · exact hsingle _ rfl
    · rfl

theorem isNumber_reference? {found : Token × Cursor} (h : start.reference? = some found) :
    found.1.kind.isNumber = false := by
  simp only [reference?] at h
  split at h
  · split at h <;> cases h
    rfl
  · split at h
    · cases h
      rfl
    · split at h <;> cases h
      rfl

/-- What can start a number. -/
def startsNumber (ch : Char) : Bool := Text.isDigit ch || ch == '.'

theorem isNumber_expressionTokenAt {ch : Char} (hch : startsNumber ch = false) :
    (start.expressionTokenAt ch).1.kind.isNumber = false := by
  unfold expressionTokenAt
  split
  case h_1 =>
    cases href : start.reference? with
    | none => rfl
    | some found => exact isNumber_reference? href
  case h_20 => exact (if_neg (Bool.eq_false_iff.1 hch)).symm ▸ isNumber_word start
  -- All other tokens are of one character or two.
  all_goals first
    | rfl
    | exact isNumber_doubled rfl (by rintro _ ⟨⟩ <;> rfl)

theorem expressionTokenAt_eq_number {ch : Char} (hch : startsNumber ch) :
    start.expressionTokenAt ch = start.number := by
  obtain hdigit | hpoint := Bool.or_eq_true_iff.1 hch
  · exact expressionTokenAt_digit start hdigit
  · rw [beq_iff_eq.1 hpoint]
    rfl

theorem number_of_expressionToken (h : c.expressionToken.1.kind.isNumber) :
    ∃ ch, c.skipSpaces.peek? = some ch ∧ startsNumber ch ∧ c.expressionToken = c.skipSpaces.number := by
  simp only [expressionToken] at h ⊢
  split at h
  · cases h
  · rename_i ch hfirst
    cases hch : startsNumber ch with
    | false =>
      rw [isNumber_expressionTokenAt hch] at h
      cases h
    | true =>
      rw [hfirst]
      exact ⟨ch, rfl, hch, expressionTokenAt_eq_number hch⟩

/-- The token of a number: its characters start with a digit or a point, and are read as the number. -/
theorem exists_isNumeral (h : c.expressionToken.1.kind = numberToken x) :
    ∃ isFloat, IsNumeral c.expressionToken.1.text.toList isFloat ∧
      (∀ ch ∈ c.expressionToken.1.text.toList.head?, startsNumber ch) ∧
      numberKind? c.expressionToken.1.text.toList isFloat = some (numberToken x) := by
  obtain ⟨ch, hfirst, hch, htoken⟩ := number_of_expressionToken (c := c) (by rw [h, isNumber_numberToken])
  have hrest := (found_expressionToken c).rest_eq (by rw [h]; cases x <;> nofun)
  -- The text starts what is left of the line, so its first character is the one that chose the reader.
  have hhead : ∀ ch ∈ c.expressionToken.1.text.toList.head?, startsNumber ch := by
    intro ch' hch'
    have heq : c.skipSpaces.peek? = some ch' := by
      rw [peek?, hrest, List.head?_append, Option.mem_def.1 hch']
      rfl
    cases hfirst.symm.trans heq
    exact hch
  rw [htoken] at h hhead ⊢
  obtain heof | ⟨stop, isFloat, heq, -, -, hnumeral⟩ := number_cases hfirst hch
  · rw [heof] at h
    cases x <;> cases h
  · rw [heq] at h hhead ⊢
    obtain ⟨htext, hkind⟩ := text_of_endNumber h
    rw [htext] at hhead ⊢
    exact ⟨isFloat, hnumeral, hhead, hkind⟩

end Cursor

end Language

/-! ### Reading the characters of a number -/

namespace Decimal

theorem takeSign_of_startsNumber (h : ∀ c ∈ cs.head?, Language.Cursor.startsNumber c) :
    takeSign cs = (false, cs) := by
  unfold takeSign
  split
  · exact absurd (h _ rfl) (by decide)
  · exact absurd (h _ rfl) (by decide)
  · rfl

theorem lowerLetter_of_startsNumber {c : Char} (hc : Language.Cursor.startsNumber c) : lowerLetter c = c := by
  refine if_neg fun hletter => ?_
  simp only [Bool.and_eq_true, decide_eq_true_eq, Char.le_def, UInt32.le_iff_toNat_le] at hletter
  obtain hdigit | hpoint := Bool.or_eq_true_iff.1 hc
  · have hbound := (toNat_of_isDigit hdigit).2
    have hle : 65 ≤ c.toNat := hletter.1
    omega
  · rw [beq_iff_eq.1 hpoint] at hletter
    exact absurd hletter.1 (by decide)

/-- The words for an infinity and for what is no number start with a letter. -/
theorem readFloatChars?_of_startsNumber (h : ∀ c ∈ cs.head?, Language.Cursor.startsNumber c) :
    readFloatChars? cs = readMagnitude? cs := by
  have hne : ∀ word : List Char, (word.head?.any (!Language.Cursor.startsNumber ·)) →
      cs.map lowerLetter ≠ word := by
    rintro _ hword rfl
    rw [List.head?_map] at hword
    cases hfirst : cs.head? with
    | none =>
      rw [hfirst] at hword
      cases hword
    | some c =>
      have hc := h c hfirst
      rw [hfirst, Option.map_some, Option.any_some, lowerLetter_of_startsNumber hc, hc] at hword
      cases hword
  simp only [readFloatChars?, takeSign_of_startsNumber h, hne "inf".toList (by decide),
    hne "infinity".toList (by decide), hne "nan".toList (by decide), or_self, if_false, Bool.false_eq_true,
    Option.map_id']

theorem readMagnitude?_of_no_digit (h : ∀ c ∈ cs, Text.isDigit c = false) : readMagnitude? cs = none := by
  have htake : ∀ cs : List Char, (∀ c ∈ cs, Text.isDigit c = false) → cs.takeWhile Text.isDigit = [] := by
    intro cs hcs
    cases cs with
    | nil => rfl
    | cons c cs => exact List.takeWhile_cons_of_neg (by simp [hcs c List.mem_cons_self])
  simp only [readMagnitude?, htake cs h]
  split
  · rename_i more heq
    have hmore : ∀ c ∈ more, Text.isDigit c = false := fun c hc =>
      h c ((List.dropWhile_suffix _).subset (heq ▸ List.mem_cons_of_mem _ hc))
    simp only [htake more hmore, List.isEmpty_nil, Bool.and_self, if_true]
  · rfl

end Decimal

namespace Language

theorem isFloatMark_iff {c : Char} : isFloatMark c ↔ c = '.' ∨ c = 'e' ∨ c = 'E' := by
  simp [isFloatMark, Decimal.isExponentMark]

theorem isNumeralChar_iff {c : Char} :
    isNumeralChar c ↔ Text.isDigit c ∨ c ∈ ['_', '.', 'e', 'E', '+', '-'] := by
  simp [isNumeralChar, isFloatMark, Cursor.isNumberChar, Decimal.isExponentMark, or_assoc]

theorem isBlank_of_isNumeralChar {c : Char} (hc : isNumeralChar c) : Text.isBlank c = false := by
  rcases isNumeralChar_iff.1 hc with hdigit | hmark
  · have hbounds := Decimal.toNat_of_isDigit hdigit
    simp only [Text.isBlank, Bool.or_eq_false_iff, Bool.and_eq_false_iff, decide_eq_false_iff_not,
      beq_eq_false_iff_ne]
    omega
  · have hall : ['_', '.', 'e', 'E', '+', '-'].all (!Text.isBlank ·) := by decide
    simpa using List.all_eq_true.1 hall c hmark

/-- The letters of `inf` and `nan` stand in no number. -/
theorem isNumeralChar_of_mem {c : Char} (hc : c ∈ "iInN".toList) : isNumeralChar c = false := by
  have hall : "iInN".toList.all (!isNumeralChar ·) := by decide
  simpa using List.all_eq_true.1 hall c hc

variable {chars : List Char} {isFloat : Bool} {x : Number}

/-- The characters of a number pass the checks that are made on a text. -/
theorem read?_ofList (hchars : ∀ c ∈ chars, isNumeralChar c)
    (hfirst : ∀ c ∈ chars.head?, Cursor.startsNumber c) :
    Number.read? (String.ofList chars) =
      match Decimal.readWordChars? chars with
      | some n => some (.int n)
      | none => (Decimal.readFloatChars? chars).map .float := by
  have htrim : Text.trim (String.ofList chars) = String.ofList chars := by
    rw [Text.trim, Text.trimBy, String.toList_ofList,
      trimChars_of_avoids fun c hc => isBlank_of_isNumeralChar (hchars c hc)]
  have hplain : chars.any (fun c => "iInN".toList.contains c) = false := by
    refine List.any_eq_false.2 fun c hc hletter => ?_
    have hnot := isNumeralChar_of_mem (List.contains_iff_mem.1 hletter)
    rw [hchars c hc] at hnot
    cases hnot
  -- Without a digit no float is read either, so asking for one changes nothing.
  have hdigit : chars.any Text.isDigit = false → Decimal.readFloatChars? chars = none := by
    intro hnone
    rw [Decimal.readFloatChars?_of_startsNumber hfirst]
    exact Decimal.readMagnitude?_of_no_digit fun c hc => Bool.eq_false_iff.2 (List.any_eq_false.1 hnone c hc)
  simp only [Number.read?, htrim, Decimal.readWord?, Decimal.readFloat?, String.toList_ofList, hplain,
    Bool.not_false, Bool.and_true]
  cases Decimal.readWordChars? chars with
  | some n => rfl
  | none =>
    cases hany : chars.any Text.isDigit with
    | true => rfl
    | false => simp only [hdigit hany, Option.map_none, Bool.false_eq_true, if_false]

/-- What marks a float is no digit, so such a number is no integer. -/
theorem IsNumeral.readWordChars? (h : IsNumeral chars true)
    (hfirst : ∀ c ∈ (chars.filter (· ≠ '_')).head?, Cursor.startsNumber c) :
    Decimal.readWordChars? (chars.filter (· ≠ '_')) = none := by
  obtain ⟨c, hc, hmark⟩ := h.marked rfl
  have hplain : c ≠ '_' ∧ Text.isDigit c = false := by
    rcases isFloatMark_iff.1 hmark with rfl | rfl | rfl <;> decide
  have hall : (chars.filter (· ≠ '_')).all Text.isDigit = false :=
    List.all_eq_false.2 ⟨c, List.mem_filter.2 ⟨hc, decide_eq_true hplain.1⟩, Bool.eq_false_iff.1 hplain.2⟩
  simp only [Decimal.readWordChars?, Decimal.takeSign_of_startsNumber hfirst, hall, Bool.not_false,
    Bool.or_true, if_true]

/-- The characters of a number, its underscores left out, are read from a text as they are from a token. -/
theorem IsNumeral.read? (h : IsNumeral chars isFloat) (hfirst : ∀ c ∈ chars.head?, Cursor.startsNumber c)
    (hkind : Cursor.numberKind? chars isFloat = some (numberToken x)) :
    Number.read? (String.ofList (chars.filter (· ≠ '_'))) = some x := by
  have hhead : ∀ c ∈ (chars.filter (· ≠ '_')).head?, Cursor.startsNumber c := by
    cases chars with
    | nil => exact nofun
    | cons first chars =>
      have hne : first ≠ '_' := by
        rintro rfl
        exact absurd (hfirst _ rfl) (by decide)
      rwa [List.filter_cons_of_pos (p := fun c => decide (c ≠ '_')) (decide_eq_true hne)]
  rw [read?_ofList (fun c hc => h.all_numeralChar c (List.mem_filter.1 hc).1) hhead]
  rcases Cursor.numberKind?_cases hkind with ⟨y, hx, hread, hword⟩ | ⟨-, n, hx, hread⟩
  · have hword : Decimal.readWordChars? (chars.filter (· ≠ '_')) = none := by
      refine hword.elim (fun hfloat => ?_) id
      rw [hfloat] at h
      exact h.readWordChars? hhead
    rw [hword, hread]
    cases x <;> cases hx
    rfl
  · rw [hread]
    cases x <;> cases hx
    rfl

end Language

/-! ### The two readers -/

namespace Number

open TwinShell.Language

variable {text : String} {x : Number}

/-- As part of an expression, the text is one token from its first character to its last, the number `x`. -/
def IsWritten (text : String) (x : Number) : Prop :=
  (Cursor.start text.toList).expressionToken = (⟨numberToken x, text, 0⟩, ⟨text.toList.length, []⟩)

instance : Decidable (IsWritten text x) :=
  inferInstanceAs (Decidable ((Cursor.start text.toList).expressionToken = _))

def withoutUnderscores (text : String) : String := String.ofList (text.toList.filter (· ≠ '_'))

theorem withoutUnderscores_eq_self (h : '_' ∉ text.toList) : withoutUnderscores text = text := by
  have hfilter : text.toList.filter (· ≠ '_') = text.toList :=
    List.filter_eq_self.2 fun c hc => decide_eq_true fun heq => h (heq ▸ hc)
  rw [withoutUnderscores, hfilter, String.ofList_toList]

/-- Wherever the token of a number stands, its text without the underscores holds that number. -/
theorem read?_withoutUnderscores {c : Cursor} (h : c.expressionToken.1.kind = numberToken x) :
    read? (withoutUnderscores c.expressionToken.1.text) = some x := by
  obtain ⟨isFloat, hnumeral, hfirst, hkind⟩ := Cursor.exists_isNumeral h
  exact hnumeral.read? hfirst hkind

/-- A text that is a number in an expression holds this number, unless there is an underscore in it: then it holds none, and without its underscores it holds this one. -/
theorem read?_of_isWritten (h : IsWritten text x) :
    (read? text = some x ↔ '_' ∉ text.toList) ∧ ('_' ∈ text.toList → read? text = none) ∧
      read? (withoutUnderscores text) = some x := by
  have hplain : read? (withoutUnderscores text) = some x := by
    have htoken := read?_withoutUnderscores (c := .start text.toList) (congrArg (·.1.kind) h)
    rwa [h] at htoken
  refine ⟨⟨fun hread hmem => ?_, fun hmem => ?_⟩, read?_of_underscore, hplain⟩
  · rw [read?_of_underscore hmem] at hread
    cases hread
  · rwa [withoutUnderscores_eq_self hmem] at hplain

/-- The greatest integer with a separator, and its digits alone. -/
theorem read?_of_isWritten_greatest :
    IsWritten "9223372036854_775807" (.int Int64.maxValue) ∧ read? "9223372036854_775807" = none ∧
      IsWritten "9223372036854775807" (.int Int64.maxValue) ∧
      read? "9223372036854775807" = some (.int Int64.maxValue) := by
  have hseparated : IsWritten "9223372036854_775807" (.int Int64.maxValue) := by decide +kernel
  have hplain : IsWritten "9223372036854775807" (.int Int64.maxValue) := by decide +kernel
  exact ⟨hseparated, (read?_of_isWritten hseparated).2.1 (by decide), hplain,
    (read?_of_isWritten hplain).1.2 (by decide)⟩

/-- Separators are fine in an expression, and not in a text. -/
theorem read?_ne_written : IsWritten "1_000" (.int 1000) ∧ read? "1_000" ≠ some (.int 1000) := by
  decide +kernel

end Number

end TwinShell
