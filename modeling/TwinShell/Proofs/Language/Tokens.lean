import TwinShell.Proofs.Decimal
import TwinShell.Proofs.Language.Reading
import TwinShell.Proofs.Language.Rendering

/-!
# Tokens of written expressions

Which token is read before each piece of a written expression. A number, a name or an operand ends where the next character cannot belong to it; `Follow` lists what can come behind an expression, and is all that the rules of the grammar know of it.
-/

namespace TwinShell.Language

/-- Before `text` and then `rest`, the next token is of the given kind and takes up exactly `text`. -/
def Lexes (text : List Char) (kind : TokenKind) (rest : List Char) : Prop :=
  ∀ pos, (Cursor.expressionToken ⟨pos, text ++ rest⟩).1.kind = kind ∧
    (Cursor.expressionToken ⟨pos, text ++ rest⟩).2 = ⟨pos + text.length, rest⟩

/-- What can come behind an expression that is read up to the operators below `level`. -/
inductive Follow (level : Nat) : List Char → Prop where
  | nil : Follow level []
  | closer {c : Char} (rest : List Char) (hc : c ∈ [')', ']', ',', ';', '\x7d']) :
    Follow level (c :: rest)
  | range (rest : List Char) : Follow level ('.' :: '.' :: rest)
  | block (rest : List Char) : Follow level (' ' :: '\x7b' :: rest)
  | operator {op : BinaryOp} (rest : List Char) (hop : op.level < level) :
    Follow level (operatorText op ++ rest)

namespace Cursor

theorem skipSpaces_space (pos : Nat) (cs : List Char) :
    skipSpaces ⟨pos, ' ' :: cs⟩ = skipSpaces ⟨pos + 1, cs⟩ := by
  simp only [skipSpaces, skipWhile, List.takeWhile_cons, List.dropWhile_cons,
    show Text.isSpaceOrTab ' ' = true from rfl, if_true, List.length_cons]
  congr 1
  omega

theorem expressionToken_space (pos : Nat) (cs : List Char) :
    expressionToken ⟨pos, ' ' :: cs⟩ = expressionToken ⟨pos + 1, cs⟩ := by
  rw [expressionToken, expressionToken, skipSpaces_space]

theorem expressionToken_cons {c : Char} (pos : Nat) (cs : List Char)
    (hc : Text.isSpaceOrTab c = false) :
    expressionToken ⟨pos, c :: cs⟩ = expressionTokenAt ⟨pos, c :: cs⟩ c := by
  have h : skipSpaces ⟨pos, c :: cs⟩ = ⟨pos, c :: cs⟩ :=
    skipWhile_of_headAvoids pos (by simp [headAvoids, hc])
  rw [expressionToken, h]
  rfl

theorem emitSkip_append (text rest : List Char) (pos : Nat) (kind : TokenKind) :
    (emitSkip ⟨pos, text ++ rest⟩ text.length kind).1.kind = kind ∧
      (emitSkip ⟨pos, text ++ rest⟩ text.length kind).2 = ⟨pos + text.length, rest⟩ := by
  simp only [emitSkip, emit, skip_append, and_self]

end Cursor

theorem Lexes.space {text rest : List Char} {kind : TokenKind} (h : Lexes text kind rest) :
    Lexes (' ' :: text) kind rest := by
  intro pos
  rw [List.cons_append, Cursor.expressionToken_space, List.length_cons, Nat.add_comm text.length,
    ← Nat.add_assoc]
  exact h (pos + 1)

/-- A token of a fixed number of characters. -/
theorem Lexes.ofEmitSkip {c : Char} {text rest : List Char} {kind : TokenKind}
    (hc : Text.isSpaceOrTab c = false)
    (h : ∀ pos, Cursor.expressionTokenAt ⟨pos, c :: (text ++ rest)⟩ c =
      Cursor.emitSkip ⟨pos, c :: (text ++ rest)⟩ (text.length + 1) kind) :
    Lexes (c :: text) kind rest := by
  intro pos
  rw [List.cons_append, Cursor.expressionToken_cons pos _ hc, h]
  exact Cursor.emitSkip_append (c :: text) rest pos kind

theorem lexes_leftBracket (rest : List Char) : Lexes ['['] .leftBracket rest :=
  .ofEmitSkip rfl fun _ => rfl

theorem lexes_rightBracket (rest : List Char) : Lexes [']'] .rightBracket rest :=
  .ofEmitSkip rfl fun _ => rfl

theorem lexes_comma (rest : List Char) : Lexes [','] .comma rest := .ofEmitSkip rfl fun _ => rfl

theorem lexes_leftParen (rest : List Char) : Lexes ['('] .leftParen rest :=
  .ofEmitSkip rfl fun _ => rfl

theorem lexes_rightParen (rest : List Char) : Lexes [')'] .rightParen rest :=
  .ofEmitSkip rfl fun _ => rfl

theorem lexes_quote (rest : List Char) : Lexes ['"'] .quote rest := .ofEmitSkip rfl fun _ => rfl

theorem lexes_minus (rest : List Char) : Lexes ['-'] (.operator (.arith .sub)) rest :=
  .ofEmitSkip rfl fun _ => rfl

theorem lexes_not {rest : List Char} (hrest : rest.head? ≠ some '=') : Lexes ['!'] .not rest := by
  refine .ofEmitSkip rfl fun pos => ?_
  have hnext : Cursor.peekAt? ⟨pos, '!' :: rest⟩ 1 ≠ some '=' := by
    cases rest with
    | nil => simp [Cursor.peekAt?]
    | cons c cs => simpa [Cursor.peekAt?] using hrest
  simp only [Cursor.expressionTokenAt, Cursor.doubled, List.nil_append, if_neg hnext]
  rfl

theorem lexes_bool (b : Bool) (rest : List Char) :
    Lexes (if b then "true".toList else "false".toList) (.bool b) rest := by
  cases b
  · exact .ofEmitSkip rfl fun _ => rfl
  · exact .ofEmitSkip rfl fun _ => rfl

theorem lexes_operator (op : BinaryOp) (rest : List Char) :
    Lexes op.spelling.toList (.operator op) (' ' :: rest) := by
  rcases op with (_ | _ | _ | _ | _ | _) | (_ | _ | _ | _) | _ | _ | _ | _ <;>
    exact .ofEmitSkip rfl fun _ => rfl

namespace Follow

variable {level : Nat} {rest : List Char}

theorem mono {level' : Nat} (hlevel : level ≤ level') (h : Follow level rest) :
    Follow level' rest := by
  cases h with
  | nil => exact .nil
  | closer rest hc => exact .closer rest hc
  | range rest => exact .range rest
  | block rest => exact .block rest
  | operator rest hop => exact .operator rest (Nat.lt_of_lt_of_le hop hlevel)

theorem avoids_nameChar (h : Follow level rest) : headAvoids Text.isNameChar rest := by
  cases h with
  | nil => rfl
  | closer rest hc =>
    simp only [List.mem_cons, List.not_mem_nil, or_false] at hc
    rcases hc with rfl | rfl | rfl | rfl | rfl <;> rfl
  | range rest => rfl
  | block rest => rfl
  | operator rest hop => rfl

/-- A point behind an expression is the first of two. -/
theorem second_point (h : Follow level rest) (hpoint : rest.head? = some '.') :
    rest[1]? = some '.' := by
  cases h with
  | nil => simp at hpoint
  | closer rest hc =>
    simp only [List.head?_cons, Option.some.injEq] at hpoint
    subst hpoint
    exact absurd hc (by decide)
  | range rest => rfl
  | block rest => simp at hpoint
  | operator rest hop => simp [operatorText] at hpoint

/-- The token behind an expression does not belong to it. -/
theorem token_kind (h : Follow level rest) (pos : Nat) :
    (Cursor.expressionToken ⟨pos, rest⟩).1.kind ≠ .leftBracket ∧
      ∀ op, (Cursor.expressionToken ⟨pos, rest⟩).1.kind = .operator op → op.level < level := by
  cases h with
  | nil => refine ⟨fun hkind => ?_, fun op hkind => ?_⟩ <;> cases hkind
  | closer rest hc =>
    simp only [List.mem_cons, List.not_mem_nil, or_false] at hc
    rcases hc with rfl | rfl | rfl | rfl | rfl <;>
      refine ⟨fun hkind => ?_, fun op hkind => ?_⟩ <;> cases hkind
  | range rest =>
    -- Whether digits stand before the points is a comparison of positions, which has to be decided.
    have hkind : (Cursor.expressionToken ⟨pos, '.' :: '.' :: rest⟩).1.kind = .eof := by
      rw [Cursor.expressionToken_cons _ _ rfl]
      simp [Cursor.expressionTokenAt, Cursor.number, Cursor.skipWhile, Cursor.isNumberChar,
        Text.isDigit, Cursor.peek?, Cursor.peekAt?, Cursor.emitEof]
    rw [hkind]
    simp
  | block rest => refine ⟨fun hkind => ?_, fun op hkind => ?_⟩ <;> cases hkind
  | @operator op rest hop =>
    have htext : operatorText op ++ rest = ' ' :: op.spelling.toList ++ ' ' :: rest := by
      simp [operatorText]
    rw [htext, ((lexes_operator op rest).space pos).1]
    refine ⟨by simp, fun op' heq => ?_⟩
    cases heq
    exact hop

end Follow

theorem lexes_reference {name : String} {rest : List Char} (hname : IsName name)
    (hrest : headAvoids Text.isNameChar rest) :
    Lexes ('$' :: name.toList) (.reference name) rest := by
  intro pos
  obtain ⟨c, cs, hcs⟩ := List.exists_cons_of_ne_nil fun h => hname.ne_empty (String.toList_inj.1 h)
  have hc : Text.isNameChar c := hname.all_nameChar c (by simp [hcs])
  have hbrace : c ≠ '\x7b' := by rintro rfl; exact absurd hc (by decide)
  have hparen : '(' ≠ c := by rintro rfl; exact absurd hc (by decide)
  have hskip : Cursor.skip ⟨pos, '$' :: name.toList ++ rest⟩ 1 = ⟨pos + 1, name.toList ++ rest⟩ :=
    Cursor.skip_append ['$'] _ pos
  have hlast := Cursor.skipWhile_append (pos + 1) hname.all_nameChar hrest
  have hpeek : Cursor.peek? ⟨pos + 1, name.toList ++ rest⟩ ≠ some '\x7b' := by
    simp [Cursor.peek?, hcs, hbrace]
  have heval : Cursor.startsWith ⟨pos + 1, name.toList ++ rest⟩ "((" = false := by
    simp [Cursor.startsWith, hcs, List.isPrefixOf, hparen]
  have hmoved : pos + 1 + name.toList.length ≠ pos + 1 := by simp [hcs]
  rw [List.cons_append, Cursor.expressionToken_cons _ _ rfl]
  simp only [Cursor.expressionTokenAt, Cursor.reference?, hskip, hpeek, heval, hlast,
    Bool.false_eq_true, if_false, if_pos hmoved, Option.getD_some, Cursor.emit,
    Cursor.textSince_append, ← List.cons_append, List.length_cons, true_and]
  congr 1
  omega

theorem isNameChar_of_isNumberChar {c : Char} (hc : Cursor.isNumberChar c) : Text.isNameChar c := by
  simp only [Cursor.isNumberChar, Bool.or_eq_true, beq_iff_eq] at hc
  rcases hc with hc | rfl
  · simp [Text.isNameChar, hc]
  · rfl

theorem not_space_of_isNameChar {c : Char} (hc : Text.isNameChar c) :
    Text.isSpaceOrTab c = false := by
  rw [Bool.eq_false_iff]
  intro hspace
  simp only [Text.isSpaceOrTab, Bool.or_eq_true, beq_iff_eq] at hspace
  rcases hspace with rfl | rfl <;> exact absurd hc (by decide)

theorem headAvoids_of_imp {p q : Char → Bool} {rest : List Char} (himp : ∀ c, q c → p c)
    (hrest : headAvoids p rest) : headAvoids q rest := by
  cases rest with
  | nil => rfl
  | cons c cs =>
    simp only [headAvoids, List.head?_cons, Option.any_some, Bool.not_eq_true'] at *
    rw [Bool.eq_false_iff] at *
    exact fun hq => hrest (himp c hq)

namespace Cursor

theorem expressionTokenAt_digit {c : Char} (start : Cursor) (hc : Text.isDigit c) :
    start.expressionTokenAt c = start.number := by
  unfold expressionTokenAt
  split <;> first | exact absurd hc (by decide) | simp [hc]

/-- A run of digits is all of a number: no point that belongs to it and no exponent follows. -/
theorem number_append {digits rest : List Char} {level : Nat} (pos : Nat)
    (hdigits : ∀ c ∈ digits, Text.isDigit c) (hne : digits ≠ []) (hrest : Follow level rest) :
    number ⟨pos, digits ++ rest⟩ =
      endNumber ⟨pos, digits ++ rest⟩ ⟨pos + digits.length, rest⟩ false := by
  have hnumber : ∀ d ∈ digits, isNumberChar d := fun d hd => by simp [isNumberChar, hdigits d hd]
  have hwhole := skipWhile_append pos hnumber
    (headAvoids_of_imp (fun _ => isNameChar_of_isNumberChar) hrest.avoids_nameChar)
  have hmoved : pos + digits.length ≠ pos := by
    have := List.length_pos_iff.2 hne
    omega
  simp only [number, hwhole, if_neg hmoved]
  split
  · rename_i hpoint
    rw [if_pos (show peekAt? ⟨pos + digits.length, rest⟩ 1 = some '.' from
      hrest.second_point hpoint)]
  · have hexponent : exponentEnd? ⟨pos + digits.length, rest⟩ = none := by
      rw [exponentEnd?, if_neg]
      have havoids := hrest.avoids_nameChar
      rintro (h | h) <;>
        · rw [peek?] at h
          simp only [headAvoids, h] at havoids
          exact absurd havoids (by decide)
    rw [hexponent]

theorem numberKind?_digits {digits : List Char} {n : Int64} (hdigits : ∀ c ∈ digits, Text.isDigit c)
    (hread : Decimal.readWordChars? digits = some n) : numberKind? digits false = some (.int n) := by
  have hplain : digits.filter (· ≠ '_') = digits := by
    refine List.filter_eq_self.2 fun d hd => ?_
    rw [decide_eq_true_eq]
    rintro rfl
    exact absurd (hdigits '_' hd) (by decide)
  simp only [numberKind?, hplain, hread, Bool.false_eq_true, if_false]

/-- A number that no letter follows is the one that its characters spell. -/
theorem endNumber_append {chars rest : List Char} {isFloat : Bool} {kind : TokenKind} (pos : Nat)
    (hkind : numberKind? chars isFloat = some kind) (hrest : headAvoids Text.isNameChar rest) :
    endNumber ⟨pos, chars ++ rest⟩ ⟨pos + chars.length, rest⟩ isFloat =
      emit ⟨pos, chars ++ rest⟩ ⟨pos + chars.length, rest⟩ kind := by
  have hletter : nextIs Text.isLetter ⟨pos + chars.length, rest⟩ = false := by
    have h := headAvoids_of_imp (q := Text.isLetter) (fun c hc => by simp [Text.isNameChar, hc]) hrest
    simpa [headAvoids, nextIs, peek?] using h
  simp only [endNumber, hletter, charsSince_append, hkind, Bool.false_eq_true, if_false]

theorem expressionToken_digits {digits rest : List Char} (pos : Nat)
    (hdigits : ∀ c ∈ digits, Text.isDigit c) (hne : digits ≠ []) :
    expressionToken ⟨pos, digits ++ rest⟩ = number ⟨pos, digits ++ rest⟩ := by
  obtain ⟨c, cs, rfl⟩ := List.exists_cons_of_ne_nil hne
  have hfirst : Text.isDigit c := hdigits c List.mem_cons_self
  have hspace := not_space_of_isNameChar (c := c) (by simp [Text.isNameChar, hfirst])
  rw [List.cons_append, expressionToken_cons _ _ hspace, expressionTokenAt_digit _ hfirst]

end Cursor

theorem lexes_digits {digits rest : List Char} {kind : TokenKind} {level : Nat}
    (hdigits : ∀ c ∈ digits, Text.isDigit c) (hne : digits ≠ [])
    (hkind : Cursor.numberKind? digits false = some kind) (hrest : Follow level rest) :
    Lexes digits kind rest := by
  intro pos
  rw [Cursor.expressionToken_digits pos hdigits hne, Cursor.number_append pos hdigits hne hrest,
    Cursor.endNumber_append pos hkind hrest.avoids_nameChar]
  exact ⟨rfl, rfl⟩

theorem lexes_int {n : Int64} {level : Nat} {rest : List Char} (hn : 0 ≤ n)
    (hrest : Follow level rest) : Lexes (Decimal.digitChars n.toInt.toNat) (.int n) rest := by
  have hread : Decimal.readWordChars? (Decimal.digitChars n.toInt.toNat) = some n := by
    have hint : 0 ≤ n.toInt := by simpa using Int64.le_iff_toInt_le.1 hn
    have hbound := n.toInt_lt
    rw [Decimal.readWordChars?_digitChars (by omega), ← Int64.ofInt_eq_ofNat,
      Int.toNat_of_nonneg hint, Int64.ofInt_toInt]
  have hdigits : ∀ c ∈ Decimal.digitChars n.toInt.toNat, Text.isDigit c :=
    fun c hc => Decimal.isDigit_of_mem_digitChars hc
  exact lexes_digits hdigits (Decimal.digitChars_ne_nil n.toInt.toNat)
    (Cursor.numberKind?_digits hdigits hread) hrest

end TwinShell.Language
