import TwinShell.Proofs.Decimal
import TwinShell.Proofs.Language.Reading
import TwinShell.Proofs.Language.Rendering

/-!
# What is found as a token

Looking for a token finds nothing, and the cursor stays, or the cursor goes on and the token is what it went over, with a kind that fits those characters. `Found` says this of each reader. Where a token starts, that the cursor gets on and stays in its line, and that a reference carries a name can all be read off it. A number has characters of one shape, `IsNumeral`, whichever way it goes on behind its first digits.
-/

namespace TwinShell.Language

/-- The characters of an integer: digits, with underscores between them, that spell the number `n`. -/
structure IsInteger (chars : List Char) (n : Int64) : Prop where
  some_digit : chars.filter (· ≠ '_') ≠ []
  all_digits : ∀ c ∈ chars.filter (· ≠ '_'), Text.isDigit c
  value : n.toInt = Decimal.natOfDigits (chars.filter (· ≠ '_'))

/-- What makes a number a float: its point, or the letter that starts its exponent. -/
def isFloatMark (c : Char) : Bool := c == '.' || Decimal.isExponentMark c

/-- A character of a number: a digit, an underscore, a mark of a float, or the sign of an exponent. -/
def isNumeralChar (c : Char) : Bool := Cursor.isNumberChar c || isFloatMark c || c == '+' || c == '-'

/-- The characters of a number, or of a part of one: with a mark of a float among them, or digits and underscores only. -/
structure IsNumeral (chars : List Char) (isFloat : Bool) : Prop where
  all_numeralChar : ∀ c ∈ chars, isNumeralChar c
  marked : isFloat = true → ∃ c ∈ chars, isFloatMark c
  unmarked : isFloat = false → ∀ c ∈ chars, Cursor.isNumberChar c

theorem isNumeralChar_of_isFloatMark {c : Char} (hc : isFloatMark c) : isNumeralChar c := by
  simp [isNumeralChar, hc]

namespace IsNumeral

variable {chars chars' : List Char} {isFloat isFloat' : Bool} {c : Char}

theorem append (h : IsNumeral chars isFloat) (h' : IsNumeral chars' isFloat') :
    IsNumeral (chars ++ chars') (isFloat || isFloat') where
  all_numeralChar := List.forall_mem_append.2 ⟨h.all_numeralChar, h'.all_numeralChar⟩
  marked hfloat := by
    rcases Bool.or_eq_true_iff.1 hfloat with hfloat | hfloat
    · obtain ⟨c, hc, hmark⟩ := h.marked hfloat
      exact ⟨c, List.mem_append_left _ hc, hmark⟩
    · obtain ⟨c, hc, hmark⟩ := h'.marked hfloat
      exact ⟨c, List.mem_append_right _ hc, hmark⟩
  unmarked hint := by
    obtain ⟨hfirst, hsecond⟩ := Bool.or_eq_false_iff.1 hint
    exact List.forall_mem_append.2 ⟨h.unmarked hfirst, h'.unmarked hsecond⟩

theorem of_mark (hchars : ∀ c ∈ chars, isNumeralChar c) (hc : c ∈ chars) (hmark : isFloatMark c) :
    IsNumeral chars true :=
  ⟨hchars, fun _ => ⟨c, hc, hmark⟩, nofun⟩

theorem mark (hc : isFloatMark c) : IsNumeral [c] true :=
  .of_mark (List.forall_mem_singleton.2 (isNumeralChar_of_isFloatMark hc)) List.mem_cons_self hc

theorem digits (c : Cursor) : IsNumeral (c.charsSince (c.skipWhile Cursor.isNumberChar)) false := by
  have hchars : ∀ ch ∈ c.charsSince (c.skipWhile Cursor.isNumberChar), Cursor.isNumberChar ch := by
    rw [Cursor.charsSince_skipWhile]
    exact List.all_eq_true.1 List.all_takeWhile
  exact ⟨fun ch hch => by simp [isNumeralChar, hchars ch hch], nofun, fun _ => hchars⟩

end IsNumeral

namespace TokenKind

/-- A kind of token that these characters can have: a reference carries a name, and an integer is the one they spell. -/
structure Fits (kind : TokenKind) (chars : List Char) : Prop where
  ne_eof : kind ≠ .eof
  name : ∀ name, kind = .reference name → IsName name
  integer : ∀ n, kind = .int n → IsInteger chars n

/-- A kind that fits any characters. -/
def isPlain : TokenKind → Bool
  | .eof | .reference _ | .int _ => false
  | _ => true

theorem fits_of_isPlain {kind : TokenKind} (h : kind.isPlain) (chars : List Char) : kind.Fits chars := by
  refine ⟨?_, ?_, ?_⟩
  · rintro rfl
    cases h
  · rintro name rfl
    cases h
  · rintro n rfl
    cases h

theorem fits_reference {name : String} (h : IsName name) (chars : List Char) : (reference name).Fits chars := by
  refine ⟨nofun, ?_, nofun⟩
  rintro _ ⟨⟩
  exact h

end TokenKind

namespace Cursor

variable {start c : Cursor}

/-! ### Going on -/

/-- The cursor gets from `start` to `c` by reading some text. -/
def Reaches (start c : Cursor) : Prop := ∃ text, start.rest = text ++ c.rest ∧ c.pos = start.pos + text.length

namespace Reaches

theorem refl (c : Cursor) : c.Reaches c := ⟨[], rfl, rfl⟩

theorem trans {c' : Cursor} (h : start.Reaches c) (h' : c.Reaches c') : start.Reaches c' := by
  obtain ⟨text, hrest, hpos⟩ := h
  obtain ⟨more, hrest', hpos'⟩ := h'
  refine ⟨text ++ more, ?_, ?_⟩
  · rw [hrest, hrest', List.append_assoc]
  · rw [hpos', hpos, List.length_append, Nat.add_assoc]

theorem pos_le (h : start.Reaches c) : start.pos ≤ c.pos := by
  obtain ⟨text, -, hpos⟩ := h
  exact hpos ▸ Nat.le_add_right _ _

theorem rest_eq (h : start.Reaches c) : start.rest = start.charsSince c ++ c.rest := by
  obtain ⟨text, hrest, hpos⟩ := h
  rw [charsSince, hpos, Nat.add_sub_cancel_left, hrest, List.take_left]

theorem charsSince_trans {c' : Cursor} (h : start.Reaches c) (h' : c.Reaches c') :
    start.charsSince c' = start.charsSince c ++ c.charsSince c' := by
  refine (List.append_left_inj c'.rest).1 ?_
  rw [← (h.trans h').rest_eq, List.append_assoc, ← h'.rest_eq, ← h.rest_eq]

theorem skip (h : start.Reaches c) (n : Nat) : start.Reaches (c.skip n) :=
  h.trans ⟨c.rest.take n, (List.take_append_drop n c.rest).symm, by rw [List.length_take]; rfl⟩

theorem skipWhile (h : start.Reaches c) (p : Char → Bool) : start.Reaches (c.skipWhile p) :=
  h.trans ⟨c.rest.takeWhile p, List.takeWhile_append_dropWhile.symm, rfl⟩

theorem skipSpaces (h : start.Reaches c) : start.Reaches c.skipSpaces := h.skipWhile _

theorem exponentEnd? (h : start.Reaches c) {stop : Cursor} (hstop : c.exponentEnd? = some stop) :
    start.Reaches stop := by
  unfold Cursor.exponentEnd? at hstop
  split at hstop
  · extract_lets offset at hstop
    split at hstop
    · cases hstop
      exact (h.skip _).skipWhile _
    · cases hstop
  · cases hstop

end Reaches

theorem charsSince_skip (c : Cursor) (n : Nat) : c.charsSince (c.skip n) = c.rest.take n := by
  rw [charsSince, skip, Nat.add_sub_cancel_left, ← List.take_eq_take_min]

theorem pos_le_skipWhile (c : Cursor) (p : Char → Bool) : c.pos ≤ (c.skipWhile p).pos :=
  Nat.le_add_right _ _

theorem pos_lt_skip {ch : Char} {k : Nat} (h : c.peek? = some ch) (hk : 0 < k) : c.pos < (c.skip k).pos := by
  obtain ⟨pos, rest⟩ := c
  cases rest with
  | nil => cases h
  | cons first rest => simp only [skip, List.length_cons]; omega

theorem pos_lt_skipWhile {ch : Char} {p : Char → Bool} (h : c.peek? = some ch) (hp : p ch = true) :
    c.pos < (c.skipWhile p).pos := by
  obtain ⟨pos, rest⟩ := c
  cases rest with
  | nil => cases h
  | cons first rest =>
    cases h
    simp [skipWhile, hp]

/-- What is skipped of a name is one, if there is any. -/
theorem isName_textSince (h : (c.skipWhile Text.isNameChar).pos ≠ c.pos) :
    IsName (c.textSince (c.skipWhile Text.isNameChar)) := by
  rw [textSince, charsSince_skipWhile]
  refine ⟨fun hempty => h ?_, ?_⟩
  · rw [String.ofList_eq_empty_iff] at hempty
    rw [skipWhile, hempty]
    rfl
  · rw [String.toList_ofList]
    exact List.all_eq_true.1 List.all_takeWhile

/-! ### Tokens -/

/-- How a token that starts at `start` is found: nothing fits there, or it goes on to `c`. -/
inductive Found (start : Cursor) : Token × Cursor → Prop where
  | nothing : Found start start.emitEof
  | upTo {c : Cursor} {kind : TokenKind} (hreaches : start.Reaches c) (hpos : start.pos < c.pos)
    (hfits : kind.Fits (start.charsSince c)) : Found start (start.emit c kind)

theorem Found.start_eq {found : Token × Cursor} (h : start.Found found) : found.1.start = start.pos := by
  cases h with
  | nothing => rfl
  | upTo => rfl

/-- What is left of the line at a token is its text, and then what is left behind it. -/
theorem Found.rest_eq {found : Token × Cursor} (h : start.Found found) (hkind : found.1.kind ≠ .eof) :
    start.rest = found.1.text.toList ++ found.2.rest := by
  cases h with
  | nothing => exact absurd rfl hkind
  | upTo hreaches =>
    rw [emit, textSince, String.toList_ofList]
    exact hreaches.rest_eq

theorem found_emitSkip {ch : Char} {kind : TokenKind} {k : Nat} (hfirst : start.peek? = some ch) (hk : 0 < k)
    (hkind : kind.isPlain) : start.Found (start.emitSkip k kind) :=
  .upTo ((Reaches.refl start).skip k) (pos_lt_skip hfirst hk) (TokenKind.fits_of_isPlain hkind _)

/-- A reference is a name or the start of an expression, and it takes up at least its dollar sign. -/
theorem found_reference? {found : Token × Cursor} {ch : Char} (hfirst : start.peek? = some ch)
    (h : start.reference? = some found) : start.Found found ∧ found.1.kind ≠ .eof := by
  have hreaches := (Reaches.refl start).skip 1
  have hskip := pos_lt_skip hfirst Nat.one_pos
  simp only [reference?] at h
  split at h
  · split at h
    · rename_i hname
      cases h
      -- The closing brace is behind the name.
      have hclose := ((((Reaches.refl (start.skip 1)).skip 1).skipSpaces.skipWhile Text.isNameChar).skipSpaces).skip 1
      exact ⟨.upTo (hreaches.trans hclose) (Nat.lt_of_lt_of_le hskip hclose.pos_le)
        (TokenKind.fits_reference (isName_textSince hname.1) _), nofun⟩
    · cases h
  · split at h
    · cases h
      exact ⟨found_emitSkip hfirst (by decide) rfl, nofun⟩
    · split at h
      · rename_i hname
        cases h
        exact ⟨.upTo (hreaches.skipWhile _) (Nat.lt_of_lt_of_le hskip (pos_le_skipWhile _ _))
          (TokenKind.fits_reference (isName_textSince hname) _), nofun⟩
      · cases h

theorem found_textFrom (stops : String) (h : start.Reaches c) : start.Found (start.textFrom stops c) := by
  simp only [textFrom]
  split
  · exact .nothing
  · rename_i hmoved
    have hlast := h.skipWhile fun ch => ch != '$' && !stops.toList.contains ch
    exact .upTo hlast (Nat.lt_of_le_of_ne hlast.pos_le (Ne.symm hmoved)) (TokenKind.fits_of_isPlain rfl _)

theorem found_textToken (stops : String) (start : Cursor) : start.Found (start.textToken stops) := by
  unfold textToken
  split
  · rename_i hdollar
    split
    · exact (found_reference? hdollar ‹_›).1
    · exact found_textFrom stops ((Reaches.refl start).skip 1)
  · exact found_textFrom stops (.refl start)

/-- Text ends where no character is left, or at one that ends it. A dollar sign does not end it: there is a reference, or the dollar sign is text. -/
theorem stops_of_textToken {stops : String} (h : (start.textToken stops).1.kind = .eof) :
    ∀ ch ∈ start.peek?, ch ∈ stops.toList := by
  have hmoves : ∀ c, (start.textFrom stops c).1.kind = .eof →
      (c.skipWhile fun ch => ch != '$' && !stops.toList.contains ch).pos = start.pos := by
    intro c hkind
    simp only [textFrom] at hkind
    split at hkind
    · assumption
    · cases hkind
  unfold textToken at h
  split at h
  · rename_i hdollar
    split at h
    · exact absurd h (found_reference? hdollar ‹_›).2
    · have hpos := hmoves _ h
      have hlt := pos_lt_skip hdollar Nat.one_pos
      have hle := (start.skip 1).pos_le_skipWhile fun ch => ch != '$' && !stops.toList.contains ch
      omega
  · rename_i hdollar
    intro ch hch
    refine Classical.byContradiction fun hstop => ?_
    have hpos := hmoves _ h
    have hlt := pos_lt_skipWhile (p := fun ch => ch != '$' && !stops.toList.contains ch) hch (by
      have hne : ch ≠ '$' := fun heq => hdollar (heq ▸ hch)
      simp [hne, hstop])
    omega

/-! ### Numbers -/

/-- What is read as a number is an integer that fits in a word, or else a float. -/
theorem numberKind?_cases {chars : List Char} {isFloat : Bool} {kind : TokenKind}
    (h : numberKind? chars isFloat = some kind) :
    (∃ x, kind = .float x ∧ Decimal.readFloatChars? (chars.filter (· ≠ '_')) = some x ∧
      (isFloat = true ∨ Decimal.readWordChars? (chars.filter (· ≠ '_')) = none)) ∨
    isFloat = false ∧ ∃ n, kind = .int n ∧ Decimal.readWordChars? (chars.filter (· ≠ '_')) = some n := by
  simp only [numberKind?] at h
  split at h
  · rename_i hisFloat
    obtain ⟨x, hread, rfl⟩ := Option.map_eq_some_iff.1 h
    exact .inl ⟨x, rfl, hread, .inl hisFloat⟩
  · rename_i hisFloat
    split at h
    · rename_i n hword
      exact .inr ⟨by simpa using hisFloat, n, (Option.some.inj h).symm, hword⟩
    · rename_i hword
      obtain ⟨x, hread, rfl⟩ := Option.map_eq_some_iff.1 h
      exact .inl ⟨x, rfl, hread, .inr hword⟩

theorem isInteger_of_readWordChars? {chars : List Char} {n : Int64} (hchars : ∀ c ∈ chars, isNumberChar c)
    (h : Decimal.readWordChars? (chars.filter (· ≠ '_')) = some n) : IsInteger chars n := by
  have hdigits : ∀ c ∈ chars.filter (· ≠ '_'), Text.isDigit c := by
    intro c hc
    obtain ⟨hc, hne⟩ := List.mem_filter.1 hc
    simpa [isNumberChar, of_decide_eq_true hne] using hchars c hc
  have hne : chars.filter (· ≠ '_') ≠ [] := by
    intro hnil
    rw [hnil] at h
    cases h
  rw [Decimal.readWordChars?_of_digits hdigits hne, Decimal.wordOfInt?_eq_some_iff] at h
  exact ⟨hne, hdigits, h⟩

theorem found_endNumber {isFloat : Bool} (hreaches : start.Reaches c) (hpos : start.pos < c.pos)
    (hchars : IsNumeral (start.charsSince c) isFloat) : start.Found (start.endNumber c isFloat) := by
  unfold endNumber
  split
  · exact found_textFrom _ hreaches
  · split
    · rename_i kind hkind
      refine .upTo hreaches hpos ?_
      rcases numberKind?_cases hkind with ⟨x, rfl, -⟩ | ⟨hint, n, rfl, hread⟩
      · exact TokenKind.fits_of_isPlain rfl _
      · refine ⟨nofun, nofun, ?_⟩
        rintro _ ⟨⟩
        exact isInteger_of_readWordChars? (hchars.unmarked hint) hread
    · exact .nothing

/-- An exponent starts with its letter, and has a sign behind it or not. -/
theorem isNumeral_exponentStart (hmark : c.peek? = some 'e' ∨ c.peek? = some 'E') :
    IsNumeral (c.rest.take (if c.peekAt? 1 = some '+' ∨ c.peekAt? 1 = some '-' then 2 else 1)) true := by
  obtain ⟨pos, rest⟩ := c
  cases rest with
  | nil => rcases hmark with hmark | hmark <;> cases hmark
  | cons mark rest =>
    have hfirst : isFloatMark mark := by rcases hmark with hmark | hmark <;> cases hmark <;> rfl
    split
    · rename_i hsign
      cases rest with
      | nil => rcases hsign with hsign | hsign <;> cases hsign
      | cons sign rest =>
        have hsecond : isNumeralChar sign := by rcases hsign with hsign | hsign <;> cases hsign <;> rfl
        refine .of_mark (List.forall_mem_cons.2 ⟨?_, List.forall_mem_singleton.2 hsecond⟩)
          List.mem_cons_self hfirst
        exact isNumeralChar_of_isFloatMark hfirst
    · exact .mark hfirst

theorem isNumeral_exponent {stop : Cursor} (h : c.exponentEnd? = some stop) :
    IsNumeral (c.charsSince stop) true := by
  unfold exponentEnd? at h
  split at h
  · rename_i hmark
    extract_lets offset at h
    split at h
    · cases h
      rw [((Reaches.refl c).skip offset).charsSince_trans ((Reaches.refl _).skipWhile isNumberChar),
        charsSince_skip]
      exact (isNumeral_exponentStart hmark).append (.digits _)
    · cases h
  · cases h

/-- A number ends at its digits, or goes on with a point, an exponent or both. Nothing is found at the first of two points. -/
theorem number_cases {ch : Char} (hfirst : start.peek? = some ch) (hch : Text.isDigit ch || ch == '.') :
    start.number = start.emitEof ∨ ∃ c isFloat, start.number = start.endNumber c isFloat ∧
      start.Reaches c ∧ start.pos < c.pos ∧ IsNumeral (start.charsSince c) isFloat := by
  have hwhole := (Reaches.refl start).skipWhile isNumberChar
  have hdigits := IsNumeral.digits start
  simp only [number]
  split
  · rename_i hpoint
    split
    · split
      · exact .inl rfl
      · rename_i hmoved
        exact .inr ⟨_, false, rfl, hwhole, Nat.lt_of_le_of_ne hwhole.pos_le (Ne.symm hmoved), hdigits⟩
    · have hpast := ((Reaches.refl (start.skipWhile isNumberChar)).skip 1).skipWhile isNumberChar
      have hreaches := hwhole.trans hpast
      have hlt : start.pos < (((start.skipWhile isNumberChar).skip 1).skipWhile isNumberChar).pos :=
        Nat.lt_of_le_of_lt hwhole.pos_le
          (Nat.lt_of_lt_of_le (pos_lt_skip hpoint Nat.one_pos) (pos_le_skipWhile _ _))
      have hfraction : IsNumeral (start.charsSince
          (((start.skipWhile isNumberChar).skip 1).skipWhile isNumberChar)) true := by
        rw [hwhole.charsSince_trans hpast,
          ((Reaches.refl _).skip 1).charsSince_trans ((Reaches.refl _).skipWhile isNumberChar), charsSince_skip,
          List.take_one, show (start.skipWhile isNumberChar).rest.head? = some '.' from hpoint]
        exact hdigits.append ((IsNumeral.mark (c := '.') rfl).append (.digits _))
      split
      · rename_i stop hstop
        have hexponent := (Reaches.refl _).exponentEnd? hstop
        refine .inr ⟨_, true, rfl, hreaches.trans hexponent, Nat.lt_of_lt_of_le hlt hexponent.pos_le, ?_⟩
        rw [hreaches.charsSince_trans hexponent]
        exact hfraction.append (isNumeral_exponent hstop)
      · exact .inr ⟨_, true, rfl, hreaches, hlt, hfraction⟩
  · rename_i hpoint
    have hlt : start.pos < (start.skipWhile isNumberChar).pos := by
      obtain hdigit | hdot := Bool.or_eq_true_iff.1 hch
      · exact pos_lt_skipWhile hfirst (by simp [isNumberChar, hdigit])
      · obtain ⟨pos, rest⟩ := start
        cases rest with
        | nil => cases hfirst
        | cons first rest =>
          cases hfirst
          rw [beq_iff_eq.1 hdot] at hpoint
          exact absurd rfl hpoint
    split
    · rename_i stop hstop
      have hexponent := (Reaches.refl _).exponentEnd? hstop
      refine .inr ⟨_, true, rfl, hwhole.trans hexponent, Nat.lt_of_lt_of_le hlt hexponent.pos_le, ?_⟩
      rw [hwhole.charsSince_trans hexponent]
      exact hdigits.append (isNumeral_exponent hstop)
    · exact .inr ⟨_, false, rfl, hwhole, hlt, hdigits⟩

theorem found_number {ch : Char} (hfirst : start.peek? = some ch) (hch : Text.isDigit ch || ch == '.') :
    start.Found start.number := by
  obtain heof | ⟨c, isFloat, heq, hreaches, hpos, hchars⟩ := number_cases hfirst hch
  · rw [heof]
    exact .nothing
  · rw [heq]
    exact found_endNumber hreaches hpos hchars

/-! ### Tokens of an expression -/

theorem found_word {ch : Char} (hfirst : start.peek? = some ch) : start.Found start.word := by
  unfold word
  split
  · exact found_emitSkip hfirst (by decide) rfl
  · split
    · exact found_emitSkip hfirst (by decide) rfl
    · split
      · exact found_emitSkip hfirst (by decide) rfl
      · exact .nothing

theorem found_doubled {ch second : Char} {kind : TokenKind} {single : Option TokenKind}
    (hfirst : start.peek? = some ch) (hkind : kind.isPlain) (hsingle : ∀ kind ∈ single, kind.isPlain) :
    start.Found (start.doubled second kind single) := by
  unfold doubled
  split
  · exact found_emitSkip hfirst (by decide) hkind
  · split
    · exact found_emitSkip hfirst (by decide) (hsingle _ rfl)
    · exact .nothing

theorem found_expressionTokenAt {ch : Char} (hfirst : start.peek? = some ch) :
    start.Found (start.expressionTokenAt ch) := by
  unfold expressionTokenAt
  split
  case h_1 =>
    cases href : start.reference? with
    | none => exact .nothing
    | some found => exact (found_reference? hfirst href).1
  case h_20 =>
    split
    · exact found_number hfirst ‹_›
    · exact found_word hfirst
  -- All other tokens are of one character or two.
  all_goals first
    | exact found_emitSkip hfirst (by decide) rfl
    | exact found_doubled hfirst rfl (by rintro _ ⟨⟩ <;> rfl)

theorem found_expressionToken (c : Cursor) : c.skipSpaces.Found c.expressionToken := by
  simp only [expressionToken]
  split
  · exact .nothing
  · exact found_expressionTokenAt ‹_›

end Cursor

end TwinShell.Language
