import TwinShell.Proofs.Language.Tokens

/-!
# Written expressions read back

Precedence climbing reads a first operand and then one operator after the other, each with a right operand that binds tighter. On a written expression the first operand is the leftmost one that stands without parentheses, and every operator on the way up puts another binary operation around what was read so far. `Climbs` says this of a text, and every expression is shown to climb by induction on it. What is nested one level deeper stands behind at least one character, so the length of the text bounds the depth.
-/

namespace TwinShell.Language

open TwinShell.Language.Parser (unary binary binaryTail primary expression)

variable {g : Grammar} {text rest : List Char} {e : Node}

/-- A token of a known kind, then what the parser does with it. -/
theorem Reads.token {α : Type} {f : Token → Parser α} {s t : List Char} {kind : TokenKind} {a : α}
    (hs : Lexes s kind (t ++ rest)) (hf : ∀ tok, tok.kind = kind → Reads (f tok) t a rest) :
    Reads (Parser.token >>= f) (s ++ t) a rest := by
  intro ctx pos
  obtain ⟨hkind, hcursor⟩ := hs pos
  rw [Parser.bind_apply, List.append_assoc, List.length_append, ← Nat.add_assoc]
  simp only [Parser.token, Parser.reading, hcursor]
  exact hf _ hkind ctx (pos + s.length)

namespace Parser

/-- The signs that can stand before an operand. -/
def isSign : TokenKind → Bool
  | .operator (.arith .add) => true
  | .operator (.arith .sub) => true
  | .not => true
  | _ => false

theorem isSign_cases {kind : TokenKind} (hkind : isSign kind) :
    kind = .operator (.arith .add) ∨ kind = .operator (.arith .sub) ∨ kind = .not := by
  unfold isSign at hkind
  split at hkind
  · exact .inl rfl
  · exact .inr (.inl rfl)
  · exact .inr (.inr rfl)
  · cases hkind

theorem unary_eq_primary (ctx : Context) {c : Cursor}
    (hc : isSign (Cursor.expressionToken c).1.kind = false) :
    unary g ctx c = primary g ctx c := by
  simp only [unary, bind_apply, cursor, token, reading]
  generalize (Cursor.expressionToken c).1.kind = kind at hc ⊢
  cases kind with
  | not => cases hc
  | operator op =>
    rcases op with (_ | _ | _ | _ | _ | _) | _ | _ | _ | _ | _
    · cases hc
    · cases hc
    all_goals rfl
  | _ => rfl

theorem primary_congr (ctx : Context) {c c' : Cursor}
    (hc : Cursor.expressionToken c = Cursor.expressionToken c') :
    primary g ctx c = primary g ctx c' := by
  have htoken : token ctx c = token ctx c' := by simp only [token, reading, hc]
  rw [primary, bind_apply, bind_apply, htoken]

theorem unary_congr (ctx : Context) {c c' : Cursor}
    (hc : Cursor.expressionToken c = Cursor.expressionToken c') :
    unary g ctx c = unary g ctx c' := by
  by_cases hsign : isSign (Cursor.expressionToken c).1.kind
  · simp only [unary, bind_apply, cursor, token, reading, hc] at hsign ⊢
    obtain hkind | hkind | hkind := isSign_cases hsign <;> simp only [hkind]
  · rw [unary_eq_primary ctx (by simpa using hsign),
      unary_eq_primary ctx (by simpa [hc] using hsign), primary_congr ctx hc]

theorem unary_space (ctx : Context) (pos : Nat) (cs : List Char) :
    unary g ctx ⟨pos, ' ' :: cs⟩ = unary g ctx ⟨pos + 1, cs⟩ :=
  unary_congr ctx (Cursor.expressionToken_space pos cs)

theorem binary_space (level : Nat) (ctx : Context) (pos : Nat) (cs : List Char) :
    binary g level ctx ⟨pos, ' ' :: cs⟩ = binary g level ctx ⟨pos + 1, cs⟩ := by
  rw [binary, bind_apply, bind_apply, unary_space]

theorem expression_space (ctx : Context) (pos : Nat) (cs : List Char) :
    expression g ctx ⟨pos, ' ' :: cs⟩ = expression g ctx ⟨pos + 1, cs⟩ := by
  rw [expression, bind_apply, bind_apply, binary_space]

end Parser

/-- A blank before what is read, for a parser that skips it. -/
theorem Reads.space {α : Type} {p : Parser α} {a : α}
    (hp : ∀ ctx pos cs, p ctx ⟨pos, ' ' :: cs⟩ = p ctx ⟨pos + 1, cs⟩) (h : Reads p text a rest) :
    Reads p (' ' :: text) a rest := by
  intro ctx pos
  rw [List.cons_append, hp, h, List.length_cons, Nat.add_comm text.length, Nat.add_assoc]

theorem Reads.unary {s more : List Char} {kind : TokenKind} (hs : Lexes s kind more)
    (hkind : Parser.isSign kind = false) (htext : text ++ rest = s ++ more)
    (h : Reads (primary g) text e rest) : Reads (Parser.unary g) text e rest := by
  intro ctx pos
  rw [Parser.unary_eq_primary ctx, h ctx pos]
  rw [htext, (hs pos).1, hkind]

/-! ### Climbing -/

/-- After a first operand, `m` operators make the expression `e` of all of `text`. -/
def Climbs (g : Grammar) (level : Nat) (text : List Char) (e : Node) (rest : List Char) : Prop :=
  ∃ first s t, text = s ++ t ∧ Reads (unary g) s first (t ++ rest) ∧
    ∃ m, m ≤ t.length ∧ ∀ n ctx pos, binaryTail g level (m + n) first ctx ⟨pos, t ++ rest⟩ =
      binaryTail g level n e ctx ⟨pos + t.length, rest⟩

theorem Climbs.ofUnary {level : Nat} (h : Reads (unary g) text e rest) :
    Climbs g level text e rest :=
  ⟨e, text, [], (List.append_nil text).symm, h, 0, Nat.le_refl 0, fun n ctx pos => by
    rw [Nat.zero_add, List.nil_append, List.length_nil, Nat.add_zero]⟩

theorem binaryTail_stop {level : Nat} (hrest : Follow level rest) (n : Nat) (left : Node)
    (ctx : Context) (pos : Nat) :
    binaryTail g level (n + 1) left ctx ⟨pos, rest⟩ = .ok left ⟨pos, rest⟩ := by
  have hop := (hrest.token_kind pos).2
  simp only [binaryTail, Parser.bind_apply, Parser.cursor, Parser.token, Parser.reading]
  generalize (Cursor.expressionToken ⟨pos, rest⟩).1.kind = kind at hop ⊢
  cases kind with
  | operator op =>
    simp only [if_neg (Nat.not_le.2 (hop op rfl))]
    rfl
  | _ => rfl

theorem binaryTail_operator {level : Nat} {op : BinaryOp} {right : Node} (hlevel : level ≤ op.level)
    (hright : Reads (g.binary (op.level + 1)) (' ' :: text) right rest) (n : Nat) (left : Node)
    (ctx : Context) (pos : Nat) :
    binaryTail g level (n + 1) left ctx ⟨pos, operatorText op ++ text ++ rest⟩ =
      binaryTail g level n (.binary op left right) ctx
        ⟨pos + (operatorText op ++ text).length, rest⟩ := by
  have htext : operatorText op ++ text ++ rest =
      (' ' :: op.spelling.toList) ++ ' ' :: (text ++ rest) := by simp [operatorText]
  obtain ⟨hkind, hcursor⟩ := (lexes_operator op (text ++ rest)).space pos
  have hread := hright ctx (pos + (' ' :: op.spelling.toList).length)
  rw [List.cons_append] at hread
  simp only [binaryTail, Parser.bind_apply, Parser.cursor, Parser.token, Parser.reading, htext,
    hkind, hcursor, if_pos hlevel, hread]
  congr 2
  simp only [operatorText, List.length_append, List.length_cons, List.length_nil]
  omega

theorem Climbs.operator {level : Nat} {op : BinaryOp} {s t : List Char} {left right : Node}
    (hleft : Climbs g level s left (operatorText op ++ t ++ rest)) (hlevel : level ≤ op.level)
    (hright : Reads (g.binary (op.level + 1)) (' ' :: t) right rest) :
    Climbs g level (s ++ (operatorText op ++ t)) (.binary op left right) rest := by
  obtain ⟨first, s₁, s₂, rfl, hfirst, m, hm, htail⟩ := hleft
  refine ⟨first, s₁, s₂ ++ (operatorText op ++ t), by simp, by simpa using hfirst, m + 1, ?_, ?_⟩
  · simp only [List.length_append, operatorText, List.length_cons]
    omega
  · intro n ctx pos
    have hm' : m + 1 + n = m + (n + 1) := by omega
    rw [hm', List.append_assoc, htail, binaryTail_operator hlevel hright]
    congr 2
    simp only [List.length_append, Nat.add_assoc]

theorem Climbs.reads {level : Nat} (h : Climbs g level text e rest) (hrest : Follow level rest) :
    Reads (binary g level) text e rest := by
  obtain ⟨first, s, t, rfl, hfirst, m, hm, htail⟩ := h
  refine hfirst.bind fun ctx pos => ?_
  obtain ⟨n, hn⟩ : ∃ n, (t ++ rest).length + 1 = m + (n + 1) :=
    ⟨(t ++ rest).length - m, by simp only [List.length_append]; omega⟩
  simp only [Parser.bind_apply, Parser.look, hn, htail, binaryTail_stop hrest]

/-! ### Operands -/

/-- At this depth of nesting, the text of an expression is read back. -/
structure Readable (depth : Nat) (e : Node) : Prop where
  unary : e.level = 6 → ∀ {rest}, Follow 7 rest →
    Reads (Parser.unary (.ofDepth depth)) (expressionText e) e rest
  climbs : ∀ {level rest}, level ≤ e.level → Follow (e.level + 1) rest →
    Climbs (.ofDepth depth) level (expressionText e) e rest

theorem Readable.binary {depth level : Nat} (h : Readable depth e) (hlevel : level ≤ e.level)
    (hrest : Follow level rest) :
    Reads (Parser.binary (.ofDepth depth) level) (expressionText e) e rest :=
  (h.climbs hlevel (hrest.mono (by omega))).reads hrest

/-- An expression with the blanks behind it. -/
theorem Readable.expression {depth : Nat} (h : Readable depth e) (blanks : List Char)
    (hblanks : ∀ c ∈ blanks, Text.isSpaceOrTab c) (hrest : Follow 1 (blanks ++ rest))
    (hblank : headAvoids Text.isSpaceOrTab rest) :
    Reads (Parser.expression (.ofDepth depth)) (expressionText e ++ blanks) e rest :=
  (h.binary (e.level_pos) hrest).bind
    (Reads.bindPure (Reads.skipSpaces hblanks hblank) rfl)

theorem Readable.expressionEnd {depth : Nat} (h : Readable depth e) (hrest : Follow 1 rest)
    (hblank : headAvoids Text.isSpaceOrTab rest) :
    Reads (Parser.expression (.ofDepth depth)) (expressionText e) e rest := by
  simpa using h.expression [] (by simp) hrest hblank

theorem Follow.avoids_space_of_closer {c : Char} (rest : List Char)
    (hc : c ∈ [')', ']', ',', ';', '\x7d']) : headAvoids Text.isSpaceOrTab (c :: rest) := by
  simp only [List.mem_cons, List.not_mem_nil, or_false] at hc
  rcases hc with rfl | rfl | rfl | rfl | rfl <;> rfl

/-- An expression before a character that closes or separates expressions. -/
theorem Readable.expressionBefore {depth : Nat} {c : Char} (h : Readable depth e)
    (hc : c ∈ [')', ']', ',', ';', '\x7d']) :
    Reads (Parser.expression (.ofDepth depth)) (expressionText e) e (c :: rest) :=
  h.expressionEnd (.closer rest hc) (Follow.avoids_space_of_closer rest hc)

theorem Readable.parenthesized {depth : Nat} (h : Readable depth e) :
    Reads (Parser.unary (.ofDepth (depth + 1))) (parenthesized (expressionText e)) e rest := by
  have hread : Reads (primary (.ofDepth (depth + 1))) (Language.parenthesized (expressionText e)) e
      rest := by
    refine Reads.token (s := ['(']) (lexes_leftParen _) fun tok htok => ?_
    rw [htok]
    refine (h.expressionBefore (c := ')') (by decide)).bind ?_
    refine Reads.token (s := [')']) (t := []) (lexes_rightParen _) fun tok htok => ?_
    rw [htok]
    exact Reads.pure e rest
  exact Reads.unary (s := ['(']) (lexes_leftParen (expressionText e ++ [')'] ++ rest)) rfl rfl hread

/-- An expression is read back at every depth that its length allows. -/
def ReadsBack (e : Node) : Prop := ∀ {depth}, (expressionText e).length ≤ depth → Readable depth e

theorem ReadsBack.parenthesized {depth : Nat} (h : ReadsBack e)
    (hdepth : (Language.parenthesized (expressionText e)).length ≤ depth) :
    Reads (unary (.ofDepth depth)) (Language.parenthesized (expressionText e)) e rest := by
  obtain ⟨depth, rfl⟩ : ∃ d, depth = d + 1 := by
    refine Nat.exists_eq_add_one.2 (Nat.lt_of_lt_of_le ?_ hdepth)
    simp [Language.parenthesized]
  have hlength : (expressionText e).length ≤ depth := by
    simp only [Language.parenthesized, List.length_cons, List.length_append] at hdepth
    omega
  exact (h hlength).parenthesized

theorem ReadsBack.operandClimbs {depth level k : Nat} (h : ReadsBack e)
    (hdepth : (operandText k e (expressionText e)).length ≤ depth) (hlevel : level ≤ k)
    (hrest : Follow (k + 1) rest) :
    Climbs (.ofDepth depth) level (operandText k e (expressionText e)) e rest := by
  unfold operandText at hdepth ⊢
  split at hdepth
  · rename_i hk
    rw [if_pos hk]
    exact .ofUnary (h.parenthesized hdepth)
  · rename_i hk
    rw [if_neg hk]
    exact (h hdepth).climbs (by omega) (hrest.mono (by omega))

theorem ReadsBack.operandUnary {depth : Nat} (h : ReadsBack e)
    (hdepth : (operandText 6 e (expressionText e)).length ≤ depth) (hrest : Follow 7 rest) :
    Reads (unary (.ofDepth depth)) (operandText 6 e (expressionText e)) e rest := by
  unfold operandText at hdepth ⊢
  split at hdepth
  · rename_i hk
    rw [if_pos hk]
    exact h.parenthesized hdepth
  · rename_i hk
    rw [if_neg hk]
    exact (h hdepth).unary (by have := e.level_le; omega) hrest

/-- An operand that binds as tightly as a sign climbs without an operator. -/
theorem Readable.ofUnary {depth : Nat} (hlevel : e.level = 6)
    (h : ∀ {rest}, Follow 7 rest → Reads (Parser.unary (.ofDepth depth)) (expressionText e) e rest) :
    Readable depth e where
  unary _ _ hrest := h hrest
  climbs _ hrest := .ofUnary (h (hrest.mono (by omega)))

theorem Readable.binaryOp {depth : Nat} {op : BinaryOp} {left right : Node} (hleft : ReadsBack left)
    (hright : ReadsBack right) (hdepth : (expressionText (.binary op left right)).length ≤ depth) :
    Readable depth (.binary op left right) where
  unary hlevel := absurd hlevel (Nat.ne_of_lt op.level_lt)
  climbs := by
    intro level rest hlevel (hrest : Follow (op.level + 1) rest)
    rw [expressionText] at hdepth ⊢
    have hoperator : (operatorText op).length ≥ 1 := Nat.succ_le_succ (Nat.zero_le _)
    simp only [List.length_append] at hdepth
    obtain ⟨depth, rfl⟩ : ∃ d, depth = d + 1 := Nat.exists_eq_add_one.2 (by omega)
    refine Climbs.operator ?_ hlevel ?_
    · refine hleft.operandClimbs (by omega) hlevel ?_
      rw [List.append_assoc]
      exact .operator _ (Nat.lt_succ_self _)
    · refine Reads.space (Parser.binary_space _) (Climbs.reads ?_ hrest)
      exact hright.operandClimbs (by omega) (Nat.le_refl _) (hrest.mono (by omega))

/-! ### Signs, variables and arrays -/

/-- The tokens that start no operand and no sign. -/
def startsNothing : TokenKind → Bool
  | .eof => true
  | .rightBracket => true
  | .operator .equal => true
  | _ => false

theorem Reads.starts (h : Reads (Parser.unary g) text e rest) (pos : Nat) :
    startsNothing (Cursor.expressionToken ⟨pos, text ++ rest⟩).1.kind = false := by
  have hread := h ⟨"", []⟩ pos
  have htoken : Parser.token ⟨"", []⟩ ⟨pos, text ++ rest⟩ =
      .ok (Cursor.expressionToken ⟨pos, text ++ rest⟩).1 (Cursor.expressionToken ⟨pos, text ++ rest⟩).2 :=
    rfl
  rw [Bool.eq_false_iff]
  intro hkind
  unfold startsNothing at hkind
  split at hkind
  case h_4 => cases hkind
  all_goals
    rename_i heq
    rw [Parser.unary_eq_primary _ (by rw [heq]; rfl), primary, Parser.bind_apply, htoken] at hread
    generalize Cursor.expressionToken ⟨pos, text ++ rest⟩ = result at heq hread
    obtain ⟨⟨kind, word, start⟩, c⟩ := result
    cases heq
    cases hread

theorem Reads.head_ne_equals (h : Reads (Parser.unary g) text e rest) :
    (text ++ rest).head? ≠ some '=' := by
  intro hhead
  obtain ⟨cs, hcs⟩ : ∃ cs, text ++ rest = '=' :: cs := List.head?_eq_some_iff.1 hhead
  have hstarts := h.starts 0
  rw [hcs, Cursor.expressionToken_cons _ _ rfl] at hstarts
  simp only [Cursor.expressionTokenAt, Cursor.doubled] at hstarts
  split at hstarts <;> cases hstarts

/-- A minus sign in front of an operand. -/
theorem reads_negate {depth : Nat} (h : Reads (unary (.ofDepth depth)) text e rest) :
    Reads (unary (.ofDepth (depth + 1))) ('-' :: text) (.negate e) rest := by
  refine Reads.cursor fun start => ?_
  refine Reads.token (s := ['-']) (lexes_minus _) fun tok htok => ?_
  rw [htok]
  exact Reads.bindPure h rfl

theorem ReadsBack.negate {depth : Nat} (h : ReadsBack e)
    (hdepth : (expressionText (.negate e)).length ≤ depth) (hrest : Follow 7 rest) :
    Reads (unary (.ofDepth depth)) (expressionText (.negate e)) (.negate e) rest := by
  rw [expressionText, List.length_cons] at hdepth
  rw [expressionText]
  obtain ⟨depth, rfl⟩ : ∃ d, depth = d + 1 := Nat.exists_eq_add_one.2 (by omega)
  exact reads_negate (h.operandUnary (by omega) hrest)

theorem ReadsBack.not {depth : Nat} (h : ReadsBack e)
    (hdepth : (expressionText (.not e)).length ≤ depth) (hrest : Follow 7 rest) :
    Reads (unary (.ofDepth depth)) (expressionText (.not e)) (.not e) rest := by
  rw [expressionText, List.length_cons] at hdepth
  rw [expressionText]
  obtain ⟨depth, rfl⟩ : ∃ d, depth = d + 1 := Nat.exists_eq_add_one.2 (by omega)
  have hoperand : Reads (unary (.ofDepth depth)) _ e rest := h.operandUnary (by omega) hrest
  refine Reads.cursor fun start => ?_
  refine Reads.token (s := ['!']) (lexes_not hoperand.head_ne_equals) fun tok htok => ?_
  rw [htok]
  exact Reads.bindPure hoperand rfl

theorem reads_symbol {name : String} (hname : IsName name) (hrest : Follow 7 rest) :
    Reads (primary g) ('$' :: name.toList) (.symbol name) rest := by
  rw [← List.append_nil ('$' :: name.toList)]
  refine Reads.token (lexes_reference hname hrest.avoids_nameChar) fun tok htok => ?_
  rw [htok]
  intro ctx pos
  have hkind := (hrest.token_kind pos).1
  simp only [Parser.afterReference, Parser.bind_apply, Parser.cursor, Parser.token, Parser.reading,
    List.nil_append]
  generalize (Cursor.expressionToken ⟨pos, rest⟩).1.kind = kind at hkind ⊢
  cases kind with
  | leftBracket => exact absurd rfl hkind
  | _ => rfl

theorem ReadsBack.element {depth : Nat} {name : String} (hname : IsName name) (h : ReadsBack e)
    (hdepth : (expressionText (.element name e)).length ≤ depth) :
    Reads (primary (.ofDepth depth)) (expressionText (.element name e)) (.element name e) rest := by
  rw [expressionText, List.length_cons, List.length_append, List.length_cons,
    List.length_append] at hdepth
  rw [expressionText]
  obtain ⟨depth, rfl⟩ : ∃ d, depth = d + 1 := Nat.exists_eq_add_one.2 (by omega)
  refine Reads.token (s := '$' :: name.toList) (lexes_reference hname rfl) fun tok htok => ?_
  rw [htok]
  refine Reads.cursor fun start => ?_
  refine Reads.token (s := ['[']) (lexes_leftBracket _) fun tok htok => ?_
  rw [htok]
  have hreadable : Readable depth e := h (by omega)
  have hindex : Reads _ _ e (']' :: rest) := hreadable.expressionBefore (by decide)
  refine (hindex.traced "index").bind ?_
  refine Reads.token (s := [']']) (t := []) (lexes_rightBracket _) fun tok htok => ?_
  rw [htok]
  exact Reads.pure _ rest

theorem length_le_itemsText (items : List Node) : items.length ≤ (itemsText items).length + 1 := by
  rw [itemsText_eq_intercalate, ← List.length_map expressionText]
  exact length_le_intercalate ',' _

theorem length_expressionText_le {item : Node} {items : List Node} (h : item ∈ items) :
    (expressionText item).length ≤ (itemsText items).length := by
  rw [itemsText_eq_intercalate]
  exact length_le_intercalate_of_mem (List.mem_map_of_mem h)

theorem reads_arrayItems {depth : Nat} {items : List Node} (hne : items ≠ [])
    (hitems : ∀ item ∈ items, Readable depth item) {fuel : Nat} (hfuel : items.length ≤ fuel)
    (before : List Node) :
    Reads (Parser.arrayItems (.ofDepth (depth + 1)) fuel before) (itemsText items ++ [']'])
      (before.reverse ++ items) rest := by
  induction items generalizing fuel before with
  | nil => exact absurd rfl hne
  | cons item items ih =>
    obtain ⟨fuel, rfl⟩ : ∃ n, fuel = n + 1 :=
      Nat.exists_eq_add_one.2 (Nat.lt_of_lt_of_le (Nat.succ_pos _) hfuel)
    have hitem := hitems item List.mem_cons_self
    by_cases hlast : items = []
    · subst hlast
      rw [itemsText]
      refine ((hitem.expressionBefore (c := ']') (by decide)).traced "array element").bind ?_
      refine Reads.token (s := [']']) (t := []) (lexes_rightBracket _) fun tok htok => ?_
      rw [htok, ← List.reverse_cons]
      exact Reads.pure _ rest
    · rw [itemsText_cons hlast, List.append_assoc, List.cons_append]
      refine ((hitem.expressionBefore (c := ',') (by decide)).traced "array element").bind ?_
      refine Reads.token (s := [',']) (lexes_comma _) fun tok htok => ?_
      rw [htok]
      have hmore := ih hlast (fun item h => hitems item (List.mem_cons_of_mem _ h))
        (Nat.le_of_succ_le_succ hfuel) (item :: before)
      simpa using hmore

theorem Readable.starts {depth : Nat} (h : Readable depth e) (hrest : Follow 1 rest) (pos : Nat) :
    startsNothing (Cursor.expressionToken ⟨pos, expressionText e ++ rest⟩).1.kind = false := by
  obtain ⟨first, s, t, htext, hfirst, -⟩ := h.climbs (Nat.zero_le _) (hrest.mono (by omega))
  rw [htext, List.append_assoc]
  exact hfirst.starts pos

theorem itemsText_starts {depth : Nat} {item : Node} {items : List Node} (h : Readable depth item)
    (pos : Nat) : startsNothing
      (Cursor.expressionToken ⟨pos, itemsText (item :: items) ++ ']' :: rest⟩).1.kind = false := by
  by_cases hlast : items = []
  · rw [hlast, itemsText]
    exact h.starts (.closer rest (by decide)) pos
  · rw [itemsText_cons hlast, List.append_assoc, List.cons_append]
    exact h.starts (.closer _ (by decide)) pos

theorem Readable.array_cons {depth : Nat} {item : Node} {items : List Node}
    (hitems : ∀ e ∈ item :: items, Readable depth e) :
    Reads (Parser.array (.ofDepth (depth + 1))) (itemsText (item :: items) ++ [']'])
      (.array (item :: items)) rest := by
  intro ctx pos
  have hfuel : (item :: items).length ≤ (itemsText (item :: items) ++ [']'] ++ rest).length + 1 := by
    have := length_le_itemsText (item :: items)
    simp only [List.length_append]
    omega
  have hread : Reads _ _ _ rest := reads_arrayItems (List.cons_ne_nil item items) hitems hfuel []
  replace hread := hread ctx pos
  have hkind : startsNothing (Cursor.expressionToken ⟨pos, itemsText (item :: items) ++ ']' :: rest⟩).1.kind =
      false := itemsText_starts (hitems item List.mem_cons_self) pos
  rw [List.append_cons] at hkind
  simp only [Parser.array, Parser.bind_apply, Parser.cursor, Parser.token, Parser.reading]
  generalize (Cursor.expressionToken ⟨pos, itemsText (item :: items) ++ [']'] ++ rest⟩).1.kind = kind
    at hkind ⊢
  cases kind with
  | rightBracket => cases hkind
  | _ => simp only [Parser.bind_apply, Parser.goto, Parser.look, hread]; rfl

theorem ReadsBack.array {depth : Nat} {items : List Node} (hitems : ∀ item ∈ items, ReadsBack item)
    (hdepth : (expressionText (.array items)).length ≤ depth) :
    Reads (primary (.ofDepth depth)) (expressionText (.array items)) (.array items) rest := by
  rw [expressionText, List.length_cons, List.length_append] at hdepth
  rw [expressionText]
  obtain ⟨depth, rfl⟩ : ∃ d, depth = d + 1 := Nat.exists_eq_add_one.2 (by omega)
  refine Reads.token (s := ['[']) (lexes_leftBracket _) fun tok htok => ?_
  rw [htok]
  cases items with
  | nil =>
    rw [itemsText]
    refine Reads.cursor fun start => ?_
    refine Reads.token (s := [']']) (t := []) (lexes_rightBracket _) fun tok htok => ?_
    rw [htok]
    exact Reads.pure _ rest
  | cons item items =>
    refine Readable.array_cons fun e he => hitems e he ?_
    have := length_expressionText_le he
    omega

/-- Every expression of the core language is read back from its text. -/
theorem IsExpression.readsBack (he : IsExpression e) : ReadsBack e := by
  induction he with
  | bool b =>
    intro depth hdepth
    refine .ofUnary rfl fun hrest => ?_
    rw [expressionText]
    have hlex := lexes_bool b
    refine Reads.unary (hlex _) rfl rfl ?_
    rw [← List.append_nil (ite _ _ _)]
    refine Reads.token (hlex _) fun tok htok => ?_
    rw [htok]
    exact Reads.pure _ _
  | int hn =>
    intro depth hdepth
    refine .ofUnary rfl fun hrest => ?_
    rw [expressionText]
    refine Reads.unary (lexes_int hn hrest) rfl rfl ?_
    rw [← List.append_nil (Decimal.digitChars _)]
    refine Reads.token (lexes_int hn hrest) fun tok htok => ?_
    rw [htok]
    exact Reads.pure _ _
  | symbol hname =>
    intro depth hdepth
    refine .ofUnary rfl fun hrest => ?_
    rw [expressionText]
    exact Reads.unary (lexes_reference hname hrest.avoids_nameChar) rfl rfl
      (reads_symbol hname hrest)
  | @element name index hname hindex ih =>
    intro depth hdepth
    refine .ofUnary rfl fun {rest} hrest => ?_
    have hlexes : Lexes ('$' :: name.toList) (.reference name)
        ('[' :: (expressionText index ++ [']'] ++ rest)) := lexes_reference hname rfl
    refine Reads.unary hlexes rfl ?_ (ih.element hname hdepth)
    rw [expressionText]
    simp
  | @array items hitems ih =>
    intro depth hdepth
    refine .ofUnary rfl fun {rest} hrest => ?_
    refine Reads.unary (lexes_leftBracket (itemsText items ++ [']'] ++ rest)) rfl ?_
      (ReadsBack.array ih hdepth)
    rw [expressionText]
    rfl
  | negate hoperand ih =>
    intro depth hdepth
    exact .ofUnary rfl fun hrest => ih.negate hdepth hrest
  | not hoperand ih =>
    intro depth hdepth
    exact .ofUnary rfl fun hrest => ih.not hdepth hrest
  | binary op hleft hright ihleft ihright =>
    intro depth hdepth
    exact .binaryOp ihleft ihright hdepth

end TwinShell.Language
