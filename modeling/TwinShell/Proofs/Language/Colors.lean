import TwinShell.Proofs.Language.Statements
import TwinShell.Session.Create

/-!
# Colors as values

An argument of a command is first tried as an expression, and is text if that fails or ends too early. A color is one word, so its first token decides: a letter in front starts no expression, digits alone are an integer, and digits that run into letters are text again. The exception is a word of digits, one `e` and digits, which is a number with an exponent.
-/

namespace TwinShell

/-- Digits, a letter that starts an exponent, and digits. -/
def IsExponential (text : String) : Prop :=
  ∃ whole mark power, text.toList = whole ++ mark :: power ∧
    (∀ c ∈ whole, Text.isDigit c) ∧ whole ≠ [] ∧ Decimal.isExponentMark mark ∧
    (∀ c ∈ power, Text.isDigit c) ∧ power ≠ []

namespace Language

variable {text rest : List Char} {color : String}

/-! ### Digits of base sixteen -/

theorem isHexDigit_of_isDigit {c : Char} (hc : Text.isDigit c) : isHexDigit c := by
  simp [isHexDigit, hc]

theorem isLetter_of_isHexDigit {c : Char} (hc : isHexDigit c) (hdigit : Text.isDigit c = false) :
    Text.isLetter c := by
  simp only [isHexDigit, hdigit, Bool.false_or, Bool.or_eq_true, Bool.and_eq_true,
    decide_eq_true_eq, Char.le_def, UInt32.le_iff_toNat_le] at hc
  have hplain : Text.isPlainLetter c := by
    simp only [Text.isPlainLetter, Bool.or_eq_true, Bool.and_eq_true, decide_eq_true_eq, Char.le_def,
      UInt32.le_iff_toNat_le]
    have : 'f'.val.toNat ≤ 'z'.val.toNat := by decide
    have : 'F'.val.toNat ≤ 'Z'.val.toNat := by decide
    omega
  simp [Text.isLetter, Text.isAlphabetic, hplain]

theorem isNameChar_of_isHexDigit {c : Char} (hc : isHexDigit c) : Text.isNameChar c := by
  cases hdigit : Text.isDigit c with
  | true => simp [Text.isNameChar, hdigit]
  | false => simp [Text.isNameChar, isLetter_of_isHexDigit hc hdigit]

theorem isNumberChar_of_isHexDigit {c : Char} (hc : isHexDigit c) :
    Cursor.isNumberChar c = Text.isDigit c := by
  have hunderscore : (c == '_') = false := by
    rw [beq_eq_false_iff_ne]
    rintro rfl
    exact absurd hc (by decide)
  rw [Cursor.isNumberChar, hunderscore, Bool.or_false]

theorem all_isHexDigit (hcolor : isColor color) : ∀ c ∈ color.toList, isHexDigit c := by
  rw [isColor, Bool.and_eq_true] at hcolor
  exact List.all_eq_true.1 hcolor.2

theorem isName_of_isColor (hcolor : isColor color) : IsName color where
  ne_empty := by
    rintro rfl
    exact absurd hcolor (by decide)
  all_nameChar c hc := isNameChar_of_isHexDigit (all_isHexDigit hcolor c hc)

/-! ### The token of a color -/

theorem startsWith_of_not_mem {word : String} {c : Char} (hc : c ∈ word.toList) (htext : c ∉ text)
    (pos : Nat) : Cursor.startsWith ⟨pos, text⟩ word = false := by
  rw [Cursor.startsWith, Bool.eq_false_iff]
  intro hstarts
  exact htext ((List.isPrefixOf_iff_prefix.1 hstarts).subset hc)

/-- A token that is no part of an expression. -/
def TokenKind.isForeign : TokenKind → Bool
  | .eof => true
  | .text => true
  | _ => false

theorem isForeign_textFrom (stops : String) (start c : Cursor) :
    (Cursor.textFrom stops start c).1.kind.isForeign := by
  simp only [Cursor.textFrom]
  split <;> rfl

/-- Digits that run into a letter are text. -/
theorem isForeign_endNumber {start c : Cursor} (hletter : c.nextIs Text.isLetter) (isFloat : Bool) :
    (start.endNumber c isFloat).1.kind.isForeign := by
  rw [Cursor.endNumber, if_pos hletter]
  exact isForeign_textFrom _ _ _

theorem nextIs_letter {cs : List Char} (hhex : ∀ c ∈ cs, isHexDigit c)
    (hdigit : headAvoids Text.isDigit cs) (hne : cs ≠ []) (pos : Nat) :
    Cursor.nextIs Text.isLetter ⟨pos, cs⟩ := by
  obtain ⟨c, cs, rfl⟩ := List.exists_cons_of_ne_nil hne
  have hc : Text.isDigit c = false := by simpa [headAvoids] using hdigit
  simp [Cursor.nextIs, Cursor.peek?, isLetter_of_isHexDigit (hhex c List.mem_cons_self) hc]

/-- A word that starts with a letter is none of the words of an expression. -/
theorem isForeign_letter {c : Char} {cs : List Char} (hhex : ∀ d ∈ c :: cs, isHexDigit d)
    (hc : Text.isDigit c = false) (pos : Nat) :
    (Cursor.expressionToken ⟨pos, c :: cs⟩).1.kind.isForeign := by
  have hhexc : isHexDigit c := hhex c List.mem_cons_self
  have hword : Cursor.expressionTokenAt ⟨pos, c :: cs⟩ c = Cursor.word ⟨pos, c :: cs⟩ := by
    have hpoint : (c == '.') = false := by
      rw [beq_eq_false_iff_ne]
      rintro rfl
      exact absurd hhexc (by decide)
    unfold Cursor.expressionTokenAt
    split <;> first | exact absurd hhexc (by decide) | simp [hc, hpoint]
  have hforeign : ∀ d, isHexDigit d = false → d ∉ c :: cs := by
    intro d hd hmem
    rw [hhex d hmem] at hd
    cases hd
  have htrue : Cursor.startsWith ⟨pos, c :: cs⟩ "true" = false :=
    startsWith_of_not_mem (c := 't') (by decide) (hforeign _ (by decide)) pos
  have hfalse : Cursor.startsWith ⟨pos, c :: cs⟩ "false" = false :=
    startsWith_of_not_mem (c := 'l') (by decide) (hforeign _ (by decide)) pos
  have hformat : Cursor.startsWith ⟨pos, c :: cs⟩ "format" = false :=
    startsWith_of_not_mem (c := 'o') (by decide) (hforeign _ (by decide)) pos
  rw [Cursor.expressionToken_cons _ _ (not_space_of_isNameChar (isNameChar_of_isHexDigit hhexc)), hword,
    Cursor.word, htrue, hfalse, hformat]
  rfl

/-- What a word starts with: digits, up to its end or a letter. -/
theorem exists_digits (word : List Char) : ∃ digits more, word = digits ++ more ∧
    (∀ c ∈ digits, Text.isDigit c) ∧ headAvoids Text.isDigit more := by
  induction word with
  | nil => exact ⟨[], [], rfl, by simp, rfl⟩
  | cons c cs ih =>
    cases hc : Text.isDigit c with
    | false => exact ⟨[], c :: cs, rfl, by simp, by simp [headAvoids, hc]⟩
    | true =>
      obtain ⟨digits, more, rfl, hdigits, hhead⟩ := ih
      exact ⟨c :: digits, more, rfl, List.forall_mem_cons.2 ⟨hc, hdigits⟩, hhead⟩

theorem skipWhile_number {digits more : List Char} (pos : Nat)
    (hdigits : ∀ c ∈ digits, Text.isDigit c) (hmore : ∀ c ∈ more, isHexDigit c)
    (hhead : headAvoids Text.isDigit more) :
    Cursor.skipWhile Cursor.isNumberChar ⟨pos, digits ++ more⟩ = ⟨pos + digits.length, more⟩ := by
  refine Cursor.skipWhile_append pos (fun d hd => by simp [Cursor.isNumberChar, hdigits d hd]) ?_
  cases more with
  | nil => rfl
  | cons c cs =>
    simpa [headAvoids, isNumberChar_of_isHexDigit (hmore c List.mem_cons_self)] using hhead

/-- Where the digits in front end, an exponent may follow. -/
theorem number_hex {digits more : List Char} (pos : Nat) (hdigits : ∀ c ∈ digits, Text.isDigit c)
    (hmore : ∀ c ∈ more, isHexDigit c) (hhead : headAvoids Text.isDigit more) :
    Cursor.number ⟨pos, digits ++ more⟩ =
      (Cursor.exponentEnd? ⟨pos + digits.length, more⟩).elim
        (Cursor.endNumber ⟨pos, digits ++ more⟩ ⟨pos + digits.length, more⟩ false)
        (Cursor.endNumber ⟨pos, digits ++ more⟩ · true) := by
  have hpoint : Cursor.peek? ⟨pos + digits.length, more⟩ ≠ some '.' := by
    intro hpoint
    exact absurd (hmore '.' (List.mem_of_head? hpoint)) (by decide)
  simp only [Cursor.number, skipWhile_number pos hdigits hmore hhead, if_neg hpoint]
  cases Cursor.exponentEnd? ⟨pos + digits.length, more⟩ <;> rfl

/-- In a word an exponent has no sign. -/
theorem exponentEnd?_hex {c : Char} {cs : List Char} (hcs : ∀ d ∈ cs, isHexDigit d) (pos : Nat) :
    Cursor.exponentEnd? ⟨pos, c :: cs⟩ =
      if Decimal.isExponentMark c && cs.head?.any Text.isDigit then
        some (Cursor.skipWhile Cursor.isNumberChar ⟨pos + 1, cs⟩)
      else none := by
  have hsign : ¬(cs.head? = some '+' ∨ cs.head? = some '-') := by
    rintro (h | h) <;> exact absurd (hcs _ (List.mem_of_head? h)) (by decide)
  have hnext : Cursor.peekAt? ⟨pos, c :: cs⟩ 1 = cs.head? := by
    rw [Cursor.peekAt?, List.getElem?_cons_succ, List.head?_eq_getElem?]
  have hskip : Cursor.skip ⟨pos, c :: cs⟩ 1 = ⟨pos + 1, cs⟩ := Cursor.skip_append [c] cs pos
  simp only [Cursor.exponentEnd?, Cursor.peek?, List.head?_cons, Option.some.injEq, hnext,
    if_neg hsign, hskip, ← Decimal.isExponentMark_iff]
  cases Decimal.isExponentMark c <;> simp

/-- A word whose digits in front run into something else than an exponent is text. -/
theorem isForeign_digits {digits more : List Char} (hdigits : ∀ c ∈ digits, Text.isDigit c)
    (hne : digits ≠ []) (hmore : ∀ c ∈ more, isHexDigit c) (hhead : headAvoids Text.isDigit more)
    (hletters : more ≠ []) (hexp : ¬IsExponential (String.ofList (digits ++ more))) (pos : Nat) :
    (Cursor.expressionToken ⟨pos, digits ++ more⟩).1.kind.isForeign := by
  rw [Cursor.expressionToken_digits pos hdigits hne, number_hex pos hdigits hmore hhead]
  cases hend : Cursor.exponentEnd? ⟨pos + digits.length, more⟩ with
  | none => exact isForeign_endNumber (nextIs_letter hmore hhead hletters _) false
  | some c =>
    obtain ⟨mark, cs, rfl⟩ := List.exists_cons_of_ne_nil hletters
    have hcs : ∀ d ∈ cs, isHexDigit d := fun d hd => hmore d (List.mem_cons_of_mem _ hd)
    rw [exponentEnd?_hex hcs] at hend
    split at hend
    · rename_i hshape
      rw [Bool.and_eq_true] at hshape
      obtain ⟨power, after, rfl, hpower, hafter⟩ := exists_digits cs
      have hrest : ∀ d ∈ after, isHexDigit d := fun d hd => hcs d (List.mem_append_right _ hd)
      rw [skipWhile_number _ hpower hrest hafter] at hend
      cases hend
      refine isForeign_endNumber (nextIs_letter hrest hafter ?_ _) true
      rintro rfl
      rw [List.append_nil] at hexp hshape
      refine hexp ⟨digits, mark, power, String.toList_ofList, hdigits, hne, hshape.1, hpower, ?_⟩
      rintro rfl
      cases hshape.2
    · cases hend

/-- The first token of a color that is neither a number nor has an exponent. -/
theorem isForeign_color (hcolor : isColor color) (hdigits : ¬∀ c ∈ color.toList, Text.isDigit c)
    (hexp : ¬IsExponential color) (pos : Nat) :
    (Cursor.expressionToken ⟨pos, color.toList⟩).1.kind.isForeign := by
  have hhex := all_isHexDigit hcolor
  rw [← String.ofList_toList (s := color)] at hexp
  generalize color.toList = word at hdigits hhex hexp
  obtain ⟨digits, more, rfl, hfront, hhead⟩ := exists_digits word
  obtain ⟨c, cs, rfl⟩ := List.exists_cons_of_ne_nil fun hnil : more = [] =>
    hdigits (by simpa [hnil] using hfront)
  by_cases hne : digits = []
  · subst hne
    exact isForeign_letter hhex (by simpa [headAvoids] using hhead) pos
  · exact isForeign_digits hfront hne (fun d hd => hhex d (List.mem_append_right _ hd)) hhead
      (List.cons_ne_nil _ _) hexp pos

/-- A word with an exponent is read as a float. -/
theorem lexes_exponential {word : String} (h : IsExponential word) :
    ∃ x, Lexes word.toList (.float x) [] := by
  obtain ⟨whole, mark, power, hword, hwhole, hne, hmark, hpower, hpowerNe⟩ := h
  obtain ⟨x, hread⟩ := Decimal.exists_readFloatChars? hwhole hne hmark hpower hpowerNe
  have hmarkHex : isHexDigit mark ∧ Text.isDigit mark = false := by
    rcases Decimal.isExponentMark_iff.1 hmark with rfl | rfl <;> decide
  have hpowerHex : ∀ c ∈ power, isHexDigit c := fun c hc => isHexDigit_of_isDigit (hpower c hc)
  have hmore : ∀ c ∈ mark :: power, isHexDigit c := List.forall_mem_cons.2 ⟨hmarkHex.1, hpowerHex⟩
  have hhead : headAvoids Text.isDigit (mark :: power) := by simp [headAvoids, hmarkHex.2]
  have hkind : Cursor.numberKind? (whole ++ mark :: power) true = some (.float x) := by
    have hplain : (whole ++ mark :: power).filter (· ≠ '_') = whole ++ mark :: power := by
      refine List.filter_eq_self.2 fun c hc => ?_
      rw [decide_eq_true_eq]
      rintro rfl
      have hhex : isHexDigit '_' := by
        rcases List.mem_append.1 hc with hc | hc
        · exact isHexDigit_of_isDigit (hwhole _ hc)
        · exact hmore _ hc
      exact absurd hhex (by decide)
    simp only [Cursor.numberKind?, hplain, hread, if_true, Option.map_some]
  refine ⟨x, fun pos => ?_⟩
  have hend : Cursor.exponentEnd? ⟨pos + whole.length, mark :: power⟩ =
      some ⟨pos + (whole ++ mark :: power).length, []⟩ := by
    have hfirst : power.head?.any Text.isDigit = true := by
      obtain ⟨c, cs, rfl⟩ := List.exists_cons_of_ne_nil hpowerNe
      simpa using hpower c List.mem_cons_self
    have hlast := skipWhile_number (pos + whole.length + 1) hpower
      (List.forall_mem_nil _) (show headAvoids Text.isDigit [] from rfl)
    rw [List.append_nil] at hlast
    rw [exponentEnd?_hex hpowerHex, hmark, hfirst, Bool.and_self, if_pos rfl, hlast,
      List.length_append, List.length_cons]
    congr 2
    omega
  have hnumber := Cursor.endNumber_append pos hkind (show headAvoids _ [] from rfl)
  rw [hword, List.append_nil, Cursor.expressionToken_digits pos hwhole hne,
    number_hex pos hwhole hmore hhead, hend]
  rw [List.append_nil] at hnumber
  rw [Option.elim_some, hnumber]
  exact ⟨rfl, rfl⟩

/-! ### The value of a color -/

theorem Reads.attempt {α : Type} {p : Parser α} {a : α} (h : Reads p text a rest) :
    Reads (Parser.attempt p) text (some a) rest := by
  intro ctx pos
  rw [Parser.attempt, h ctx pos]

theorem Reads.attempt_none {α : Type} {p : Parser α} (h : ∀ ctx pos, ∃ e, p ctx ⟨pos, rest⟩ = .error e) :
    Reads (Parser.attempt p) [] none rest := by
  intro ctx pos
  obtain ⟨e, he⟩ := h ctx pos
  rw [List.nil_append, Parser.attempt, he]
  rfl

theorem primary_eq_error (g : Grammar) (ctx : Context) {c : Cursor}
    (h : (Cursor.expressionToken c).1.kind.isForeign) : ∃ e, Parser.primary g ctx c = .error e := by
  have htoken : Parser.token ctx c = .ok (Cursor.expressionToken c).1 (Cursor.expressionToken c).2 := rfl
  rw [Parser.primary, Parser.bind_apply, htoken]
  generalize Cursor.expressionToken c = found at h ⊢
  obtain ⟨⟨kind, text, start⟩, c'⟩ := found
  cases kind with
  | eof | text => exact ⟨_, rfl⟩
  | _ => cases h

/-- A token that is no part of an expression is a problem of the expression. -/
theorem expression_eq_error {g : Grammar} {ctx : Context} {c : Cursor}
    (h : (Cursor.expressionToken c).1.kind.isForeign) :
    ∃ e, Parser.expression g ctx c = .error e := by
  have hsign : Parser.isSign (Cursor.expressionToken c).1.kind = false := by
    cases hkind : (Cursor.expressionToken c).1.kind <;> rw [hkind] at h <;> first | rfl | cases h
  obtain ⟨e, he⟩ := primary_eq_error g ctx h
  refine ⟨e, ?_⟩
  rw [Parser.expression, Parser.binary, Parser.bind_apply, Parser.bind_apply,
    Parser.unary_eq_primary ctx hsign, he]

/-- Trimming changes nothing where there is nothing to drop. -/
theorem trimChars_of_avoids {p : Char → Bool} {cs : List Char} (h : ∀ c ∈ cs, p c = false) :
    Text.trimChars p cs = cs := by
  have hdrop : ∀ cs : List Char, (∀ c ∈ cs, p c = false) → cs.dropWhile p = cs := by
    intro cs hcs
    cases cs with
    | nil => rfl
    | cons c cs => rw [List.dropWhile_cons_of_neg (by simp [hcs c List.mem_cons_self])]
  rw [Text.trimChars, Text.dropEndWhile, hdrop _ h, hdrop, List.reverse_reverse]
  exact fun c hc => h c (List.mem_reverse.1 hc)

theorem trimChars_name {name : String} (hname : IsName name) :
    Text.trimChars Text.isSpaceOrTab name.toList = name.toList :=
  trimChars_of_avoids fun c hc => not_space_of_isNameChar (hname.all_nameChar c hc)

theorem isText_name {name : String} (hname : IsName name) :
    ∀ c ∈ name.toList, TextMode.unquoted.isText c := by
  intro c hc
  have hne : ∀ d, Text.isNameChar d = false → c ≠ d := by
    rintro d hd rfl
    rw [hname.all_nameChar c hc] at hd
    cases hd
  have hstops : c ≠ '$' ∧ c ≠ '@' ∧ c ≠ ';' ∧ c ≠ ',' ∧ c ≠ '\x7d' ∧ c ≠ ')' :=
    ⟨hne _ rfl, hne _ rfl, hne _ rfl, hne _ rfl, hne _ rfl, hne _ rfl⟩
  simpa [TextMode.isText, TextMode.stops, Cursor.unquotedStops] using hstops

/-- What stands behind a word: nothing, or a separator and another word. -/
inductive FollowsWord : List Char → Prop where
  | nil : FollowsWord []
  | separator {name : String} (hname : IsName name) : FollowsWord ('@' :: name.toList)

theorem FollowsWord.avoids {p : Char → Bool} (h : FollowsWord rest) (hp : p '@' = false) :
    headAvoids p rest := by
  cases h with
  | nil => rfl
  | separator hname => simp [headAvoids, hp]

theorem FollowsWord.not_mem {c : Char} (h : FollowsWord rest) (hc : Text.isNameChar c = false)
    (hat : c ≠ '@') : c ∉ rest := by
  cases h with
  | nil => exact List.not_mem_nil
  | separator hname =>
    rw [List.mem_cons, not_or]
    refine ⟨hat, fun hmem => ?_⟩
    rw [hname.all_nameChar c hmem] at hc
    cases hc

theorem startsWith_name {word name : String} {c : Char} (hname : IsName name) (hrest : FollowsWord rest)
    (hc : c ∈ word.toList) (hother : Text.isNameChar c = false) (hat : c ≠ '@') (pos : Nat) :
    Cursor.startsWith ⟨pos, name.toList ++ rest⟩ word = false := by
  refine startsWith_of_not_mem hc ?_ pos
  rw [List.mem_append, not_or]
  refine ⟨fun hmem => ?_, hrest.not_mem hother hat⟩
  rw [hname.all_nameChar c hmem] at hother
  cases hother

/-- A word as text. -/
theorem reads_word {g : Grammar} {name : String} (label : String) (hname : IsName name)
    (hrest : FollowsWord rest) : Reads (Parser.string g label) name.toList (.text name) rest := by
  have hquote : ∀ pos, (Cursor.startsWith ⟨pos, name.toList ++ rest⟩ "\"" ||
      Cursor.startsWith ⟨pos, name.toList ++ rest⟩ "format(") = false := by
    intro pos
    rw [startsWith_name (c := '"') hname hrest (by decide) (by decide) (by decide),
      startsWith_name (c := '(') hname hrest (by decide) (by decide) (by decide)]
    rfl
  have hfirst : headAvoids Text.isSpaceOrTab (name.toList ++ rest) := by
    obtain ⟨c, cs, hcs, hc⟩ := hname.exists_cons
    simp [hcs, headAvoids, not_space_of_isNameChar hc]
  have hdollar : rest.head? ≠ some '$' := fun h =>
    hrest.not_mem (by decide) (by decide) (List.mem_of_head? h)
  refine Reads.traced label (Reads.bindNil (Reads.skipNoSpaces hfirst) ?_)
  refine Reads.bindNil (Reads.look hquote) ?_
  rw [← List.append_nil name.toList]
  refine (reads_plainText (isText_name hname) hdollar (hrest.avoids rfl)
    fun _ => trimChars_name hname).bind ?_
  exact (Reads.skipNoSpaces (hrest.avoids rfl)).bindPure rfl

/-- An argument without a mark of its own, such as a bracket: what it is as an expression, or else text. -/
theorem reads_unmarkedValue {g : Grammar} {node : Node}
    (hplain : ∀ c ∈ [' ', '\t', '[', '$'], c ∉ text)
    (h : (∀ ctx pos, ∃ e, g.expression ctx ⟨pos, text⟩ = .error e) ∧ Reads (Parser.string g "") text node [] ∨
      ∃ read, Reads g.expression text read [] ∧ node = Parser.valueNode read text) :
    Reads (Parser.value g) text node [] := by
  have hstart : ∀ (word : String), ∀ c ∈ [' ', '\t', '[', '$'], c ∈ word.toList →
      ∀ pos, Cursor.startsWith ⟨pos, text ++ []⟩ word = false := by
    intro word c hmark hc pos
    rw [List.append_nil]
    exact startsWith_of_not_mem hc (hplain c hmark) pos
  have heval := hstart "eval " ' ' (by decide) (by decide)
  have harray := hstart "[" '[' (by decide) (by decide)
  have hcommand := hstart "$(" '$' (by decide) (by decide)
  have hfirst : headAvoids Text.isSpaceOrTab (text ++ []) := by
    rw [List.append_nil]
    cases text with
    | nil => rfl
    | cons c cs =>
      have hspace : c ≠ ' ' := fun hc => hplain ' ' (by decide) (hc ▸ List.mem_cons_self)
      have htab : c ≠ '\t' := fun hc => hplain '\t' (by decide) (hc ▸ List.mem_cons_self)
      simp [headAvoids, Text.isSpaceOrTab, hspace, htab]
  refine Reads.traced "value" (Reads.bindNil (Reads.skipNoSpaces hfirst) ?_)
  refine Reads.bindNil (Reads.tryExact_false (heval 0)) ?_
  refine Reads.bindNil (Reads.look harray) ?_
  refine Reads.bindNil (a := false) (Reads.look fun pos => by rw [hcommand]; rfl) ?_
  rcases h with ⟨hfails, htext⟩ | ⟨read, hread, rfl⟩
  · rw [← List.append_nil text] at hfails
    exact Reads.cursor fun start => Reads.bindNil (Reads.attempt_none hfails) htext
  · rw [if_neg Bool.false_ne_true]
    intro ctx pos
    have hends : Reads Parser.valueEnds [] true [] := Reads.bindNil Stops.nil.commandEnds (Reads.pure _ _)
    have hend := hends ctx (pos + text.length)
    rw [List.nil_append, List.length_nil, Nat.add_zero] at hend
    simp only [Parser.bind_apply, Parser.cursor, hread.attempt ctx pos, hend, if_true,
      Cursor.charsSince_append]
    rfl

/-- A word as an argument: what it is as an expression, or else text. -/
theorem reads_wordValue {g : Grammar} {name : String} {node : Node} (hname : IsName name)
    (h : (∀ ctx pos, ∃ e, g.expression ctx ⟨pos, name.toList⟩ = .error e) ∧ node = .text name ∨
      ∃ read, Reads g.expression name.toList read [] ∧ node = Parser.valueNode read name.toList) :
    Reads (Parser.value g) name.toList node [] := by
  refine reads_unmarkedValue (fun c hmark hc => ?_) (h.imp_left fun ⟨hfails, hnode⟩ => ⟨hfails, ?_⟩)
  · have hnameChar := hname.all_nameChar c hc
    simp only [List.mem_cons, List.not_mem_nil, or_false] at hmark
    rcases hmark with rfl | rfl | rfl | rfl <;> exact absurd hnameChar (by decide)
  · rw [hnode]
    exact reads_word "" hname .nil

def numberToken : Number → TokenKind
  | .int n => .int n
  | .float x => .float x

theorem reads_numberOperand {depth : Nat} {n : Number} (hlex : Lexes text (numberToken n) rest) :
    Reads (Parser.unary (.ofDepth depth)) text (.literal n.toValue) rest := by
  have hprimary : Reads (Parser.primary (.ofDepth depth)) text (.literal n.toValue) rest := by
    rw [← List.append_nil text]
    refine Reads.token hlex fun tok htok => ?_
    rw [htok]
    cases n <;> exact Reads.pure _ _
  refine Reads.unary hlex ?_ rfl hprimary
  cases n <;> rfl

theorem reads_number {depth : Nat} {n : Number} (hlex : Lexes text (numberToken n) rest)
    (hrest : Stops rest) : Reads (Parser.expression (.ofDepth depth)) text (.literal n.toValue) rest :=
  reads_operand (reads_numberOperand hlex) hrest

theorem unmarked_floatText (x : Float) : Decimal.Unmarked (floatText x).toList := by
  unfold floatText
  split
  · exact Decimal.unmarked_intText _
  · exact Decimal.unmarked_showFloat _

theorem isPadded_of_zero {digits : List Char} (hdigits : ∀ c ∈ digits, Text.isDigit c)
    (hlength : 1 < digits.length) (hzero : digits.head? = some '0') : Parser.isPadded digits = true := by
  match digits, hlength with
  | c :: d :: cs, _ =>
    cases hzero
    exact hdigits d (List.mem_cons_of_mem _ List.mem_cons_self)

/-- A color of digits is an integer, unless that would lose a leading zero. -/
theorem exists_digitsValue (hcolor : isColor color) (hdigits : ∀ c ∈ color.toList, Text.isDigit c) :
    ∃ value : Value, value.isAssignable ∧ value.text = color ∧
      ∀ depth, Reads (Parser.value (.ofDepth (depth + 1))) color.toList (.literal value) [] := by
  have hname := isName_of_isColor hcolor
  have hlength : color.toList.length = 6 := by
    rw [isColor, Bool.and_eq_true, beq_iff_eq] at hcolor
    exact hcolor.1
  have hne : color.toList ≠ [] := List.ne_nil_of_length_pos (by omega)
  have hfits : Decimal.natOfDigits color.toList < 0x8000000000000000 := by
    have hlt := Decimal.natOfDigits_lt hdigits
    rw [hlength] at hlt
    exact Nat.lt_trans hlt (by decide)
  have hread : ∀ depth, Reads (Parser.expression (.ofDepth depth)) color.toList
      (.literal (.int (Int64.ofNat (Decimal.natOfDigits color.toList)))) [] := fun depth =>
    reads_number (n := .int _) (lexes_digits hdigits hne
      (Cursor.numberKind?_digits hdigits (Decimal.readWordChars?_digits hdigits hne hfits))
      (Follow.nil : Follow 0 [])) .nil
  have hvalue : ∀ depth, Reads (Parser.value (.ofDepth (depth + 1))) color.toList _ [] := fun depth =>
    reads_wordValue hname (.inr ⟨_, hread depth, rfl⟩)
  simp only [Parser.valueNode, trimChars_name hname, String.ofList_toList] at hvalue
  cases hpadded : Parser.isPadded color.toList with
  | true =>
    rw [hpadded] at hvalue
    exact ⟨.str color, rfl, rfl, hvalue⟩
  | false =>
    rw [hpadded] at hvalue
    refine ⟨.int _, rfl, ?_, hvalue⟩
    have hzero : color.toList.head? ≠ some '0' := by
      intro hzero
      rw [isPadded_of_zero hdigits (by omega) hzero] at hpadded
      cases hpadded
    show Decimal.intText _ = color
    rw [Decimal.intText_ofNat hfits, Decimal.natText, Decimal.digitChars_natOfDigits hdigits hne hzero,
      String.ofList_toList]

/-- The value that a color is read as, and when it is still that color. -/
theorem exists_colorValue (hcolor : isColor color) :
    ∃ value : Value, value.isAssignable ∧ (value.text = color ↔ ¬IsExponential color) ∧
      ∀ depth, Reads (Parser.value (.ofDepth (depth + 1))) color.toList (.literal value) [] := by
  have hname := isName_of_isColor hcolor
  by_cases hexp : IsExponential color
  · obtain ⟨x, hlex⟩ := lexes_exponential hexp
    refine ⟨.float x, rfl, iff_of_false (fun htext => ?_) (not_not_intro hexp), fun depth => ?_⟩
    · obtain ⟨whole, mark, power, hword, -, -, hmark, -⟩ := hexp
      have hunmarked := unmarked_floatText x mark
      rw [show floatText x = color from htext, hword, hmark] at hunmarked
      cases hunmarked (by simp)
    · exact reads_wordValue hname (.inr ⟨_, reads_number (n := .float x) hlex .nil, rfl⟩)
  · by_cases hdigits : ∀ c ∈ color.toList, Text.isDigit c
    · obtain ⟨value, hassignable, htext, hreads⟩ := exists_digitsValue hcolor hdigits
      exact ⟨value, hassignable, iff_of_true htext hexp, hreads⟩
    · refine ⟨.str color, rfl, iff_of_true rfl hexp, fun depth => ?_⟩
      refine reads_wordValue hname (.inl ⟨fun ctx pos => ?_, rfl⟩)
      exact expression_eq_error (isForeign_color hcolor hdigits hexp pos)

/-! ### Lines with a color -/

theorem reads_tag {g : Grammar} {slug : String} {node : Node} (hslug : IsName slug)
    (hcolor : IsName color) (hvalue : Reads (Parser.value g) color.toList node []) :
    Reads (Parser.statement g) ("+tag:".toList ++ (slug.toList ++ '@' :: color.toList))
      (.create (.tag (.text slug) node)) [] := by
  have hseparator : Reads Parser.separator ['@'] () (color.toList ++ []) :=
    Reads.bindNil (Reads.skipNoSpaces rfl) (Reads.expect "@" _)
  have hcreation : Reads (Parser.creation g .tag) (':' :: (slug.toList ++ '@' :: color.toList))
      (.tag (.text slug) node) [] := by
    refine (Reads.expect ":" _).bind ((reads_word "slug" hslug ?_).bind ?_)
    · rw [List.append_nil]
      exact .separator hcolor
    · exact hseparator.bind (hvalue.bindPure rfl)
  have hword : Reads (Parser.keyword? creatables) "tag".toList (some ("tag", .tag))
      (':' :: (slug.toList ++ '@' :: color.toList) ++ []) := reads_tableWord rfl fun _ => rfl
  have hcreate : Reads (Parser.create g) ("tag".toList ++ ':' :: (slug.toList ++ '@' :: color.toList))
      (.create (.tag (.text slug) node)) [] := by
    refine hword.bind ?_
    exact (hcreation.traced "tag").bindPure rfl
  show Reads _ ("+".toList ++ ("tag".toList ++ ':' :: (slug.toList ++ '@' :: color.toList))) _ _
  exact reads_command (k := .create) (by decide) rfl rfl (fun h => absurd h (by decide)) hcreate

end Language

end TwinShell
