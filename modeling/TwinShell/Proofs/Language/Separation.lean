import TwinShell.Proofs.Language.Repetition

/-!
# What is behind a semicolon is not seen

Every rule of the grammar repeats in a longer line what it does in a line that ends before a semicolon. There is one exception: the text of a quotation does not end at a semicolon, so an expression that leaves a quotation open at the end of the line is read further in the longer line. This excuses problems of expressions; that a value was tried as an expression with an open quotation has to be ruled out from outside.
-/

namespace TwinShell.Language

variable {m : Embedding} {line : List Char} {excuse : Excuse} {g h : Grammar}

/-- The parsers of `h` for nested parts repeat in the longer line what those of `g` do. -/
structure Grammar.Repeats (m : Embedding) (line : List Char) (g h : Grammar) : Prop where
  expression : Language.Repeats m line .none g.expression h.expression
  binary : ∀ level, Language.Repeats m line .unclosed (g.binary level) (h.binary level)
  unary : Language.Repeats m line .unclosed g.unary h.unary
  statement : Language.Repeats m line .any g.statement h.statement
  statements : RepeatsInside m line g.statements h.statements
  staysIn : ∀ line, h.StaysIn line

/-! ### Quotations -/

/-- Reads what is left of a quotation, after `pieces` of its text. -/
def quotationRest (g : Grammar) (fuel : Nat) (pieces : Parser.TextPieces) : Parser Node := do
  let pieces ← Parser.textPieces g .quoted fuel pieces
  Parser.expect "\""
  return pieces.toNode false

theorem quotation_eq (g : Grammar) :
    (do
      let node ← Parser.textNode g .quoted false
      Parser.expect "\""
      return node) =
    (do
      let fuel ← Parser.look (·.rest.length + 1)
      quotationRest g fuel {}) := by
  funext ctx c
  simp only [Parser.textNode, quotationRest, Parser.bind_apply, Parser.look]
  cases Parser.textPieces g .quoted (c.rest.length + 1) {} ctx c <;> rfl

/-- Reads on behind a token of a quotation. -/
def afterQuotedToken (g : Grammar) (fuel : Nat) (pieces : Parser.TextPieces) (token : Token) : Parser Node :=
  match token.kind with
  | .text => quotationRest g fuel (pieces.addText token.text.toList)
  | .reference name => quotationRest g fuel (pieces.addValue (.symbol name))
  | .leftEval => do
    let node ← g.expression
    Parser.expect "))"
    quotationRest g fuel (pieces.addValue node)
  | _ => do
    Parser.expect "\""
    return pieces.toNode false

theorem quotationRest_succ (fuel : Nat) (pieces : Parser.TextPieces) :
    quotationRest g (fuel + 1) pieces =
      Parser.reading TextMode.quoted.token >>= afterQuotedToken g fuel pieces := by
  funext ctx c
  simp only [quotationRest, Parser.textPieces, Parser.bind_apply, Parser.reading]
  generalize TextMode.quoted.token c = found
  obtain ⟨⟨kind, text, start⟩, c'⟩ := found
  cases kind with
  | leftEval =>
    simp only [afterQuotedToken, Parser.bind_apply]
    cases g.expression ctx c' with
    | ok node c₁ =>
      dsimp only
      cases Parser.expect "))" ctx c₁ <;> rfl
    | error e => rfl
    | exhausted => rfl
  | _ => rfl

/-- The end of a quotation, where there is no quotation mark. -/
theorem quotation_unclosed {c : Cursor} (hnone : '"' ∉ c.rest) (node : Node) (ctx : Context) :
    ∃ e, (do Parser.expect "\""; return node : Parser Node) ctx c = .error e ∧
      e.problem = .expected "\"" := by
  have hstarts : c.startsWith "\"" = false := c.startsWith_eq_false (by decide) hnone
  refine ⟨⟨.expected "\"", c.pos, ctx.trail, ctx.input⟩, ?_, rfl⟩
  rw [Parser.bind_apply, Parser.expect_eq_error hstarts]

/-- At the end of the line a quotation is not closed. -/
theorem quotationRest_atEnd (fuel : Nat) (pieces : Parser.TextPieces) (ctx : Context) {c : Cursor}
    (hrest : c.rest = []) :
    quotationRest g fuel pieces ctx c = .exhausted ∨
      ∃ e, quotationRest g fuel pieces ctx c = .error e ∧ e.problem = .expected "\"" := by
  cases fuel with
  | zero => exact .inl rfl
  | succ fuel =>
    obtain ⟨pos, rest⟩ := c
    obtain rfl : rest = [] := hrest
    have heof : TextMode.quoted.token ⟨pos, []⟩ = (⟨.eof, "eof", pos⟩, ⟨pos, []⟩) := by
      simp [TextMode.token, Cursor.textToken, Cursor.textFrom, Cursor.skipWhile, Cursor.peek?, Cursor.emitEof]
    rw [quotationRest_succ, Parser.bind_apply, Parser.reading, heof]
    exact .inr (quotation_unclosed (c := ⟨pos, []⟩) List.not_mem_nil _ ctx)

theorem quotationRest_runsOut (fuel : Nat) (pieces : Parser.TextPieces) (ctx : Context) {c : Cursor}
    (hruns : c.RunsOut (c.textToken Cursor.quotedStops)) :
    quotationRest g (fuel + 1) pieces ctx c = .exhausted ∨
      ∃ e, quotationRest g (fuel + 1) pieces ctx c = .error e ∧ e.problem = .expected "\"" := by
  rw [quotationRest_succ, Parser.bind_apply]
  simp only [Parser.reading, TextMode.token, TextMode.stops, afterQuotedToken]
  obtain htext | heof := hruns.isText
  · rw [htext]
    exact quotationRest_atEnd fuel _ ctx hruns.atEnd
  · rw [heof]
    exact .inr (quotation_unclosed (hruns.atEnd ▸ List.not_mem_nil) _ ctx)

/-- Without a quotation mark a quotation is not closed. -/
theorem quotationRest_ne_ok (hh : ∀ line, h.StaysIn line) (fuel : Nat) (pieces : Parser.TextPieces)
    (ctx : Context) {c : Cursor} (hnone : '"' ∉ c.rest) (node : Node) (c' : Cursor) :
    quotationRest h fuel pieces ctx c ≠ .ok node c' := by
  intro hok
  rw [quotationRest, Parser.bind_apply] at hok
  split at hok
  · rename_i pieces' c₁ hpieces
    obtain ⟨read, hsplit, -⟩ := staysIn_textPieces (hh _) .quoted fuel pieces ctx c _ _ c.isIn_ownLine hpieces
    have hnone' : '"' ∉ c₁.rest := by
      intro hmem
      have hline := hsplit ▸ List.mem_append_right read hmem
      obtain hblank | hrest := List.mem_append.1 hline
      · exact absurd (List.eq_of_mem_replicate hblank) (by decide)
      · exact hnone hrest
    obtain ⟨e, herror, -⟩ := quotation_unclosed hnone' (pieces'.toNode false) ctx
    cases herror.symm.trans hok
  · cases hok
  · cases hok

section Rules

variable (hg : g.Repeats m line h)
include hg

theorem repeats_quotationRest (k k' : Nat) (pieces : Parser.TextPieces) :
    Repeats m line .unclosed (quotationRest g k pieces) (quotationRest h k' pieces) := by
  refine Repeats.loop _ _ (fun _ => rfl) (fun _ => rfl) (fun k k' pieces hround => ?_) k k' pieces
  have htoken (t : Token) :
      Repeats m line .unclosed (afterQuotedToken g k pieces t) (afterQuotedToken h k' pieces (t.placed m)) := by
    obtain ⟨kind, text, start⟩ := t
    cases kind with
    | text => exact hround _
    | reference name => exact hround _
    | leftEval =>
      exact hg.expression.of_none.bind fun _ => (Repeats.expect "))" (by decide)).bind fun _ => hround _
    | _ => exact (Repeats.expect "\"" (by decide)).bindPure
  intro ctx ctx' c hc
  obtain hsame | hruns := Cursor.quotedToken_placed (m := m) hc
  · rw [quotationRest_succ, quotationRest_succ, Parser.bind_apply, Parser.bind_apply]
    simp only [Parser.reading, TextMode.token, TextMode.stops, hsame]
    exact htoken _ ctx ctx' _ (hc.textToken _)
  -- The text runs to the end of the line, so here the quotation is not closed.
  obtain hgave | ⟨e, herror, hproblem⟩ := quotationRest_runsOut (g := g) k pieces ctx hruns
  · rw [hgave]
    exact .gaveUp
  rw [herror]
  by_cases hmark : '"' ∈ m.after
  · exact .excused ⟨hmark, hproblem⟩
  · have hnone : '"' ∉ (c.placed m).rest := by
      rw [Cursor.placed, List.mem_append, not_or]
      exact ⟨hruns.unclosed, hmark⟩
    cases hlong : quotationRest h (k' + 1) pieces ctx' (c.placed m) with
    | ok node c' => exact absurd hlong (quotationRest_ne_ok hg.staysIn _ _ _ hnone node c')
    | error e' => exact .error
    | exhausted => exact .givesUp

/-! ### Expressions and text -/

theorem repeats_textPieces {mode : TextMode} (hmode : ';' ∈ mode.stops.toList) (k k' : Nat)
    (pieces : Parser.TextPieces) :
    Repeats m line excuse (Parser.textPieces g mode k pieces) (Parser.textPieces h mode k' pieces) := by
  refine Repeats.loop _ _ (fun _ => rfl) (fun _ => rfl) (fun k k' pieces hround => ?_) k k' pieces
  refine Repeats.textToken hmode fun ⟨kind, text, start⟩ => ?_
  cases kind with
  | text => exact hround _
  | reference name => exact hround _
  | leftEval =>
    exact hg.expression.of_none.bind fun _ => (Repeats.expect "))" (by decide)).bind fun _ => hround _
  | _ => exact .pure _

theorem repeats_textNode {mode : TextMode} (hmode : ';' ∈ mode.stops.toList) (trim : Bool) :
    Repeats m line excuse (Parser.textNode g mode trim) (Parser.textNode h mode trim) :=
  .fuel fun k k' => (repeats_textPieces hg hmode k k' _).bindPure

theorem repeats_path (name : String) : Repeats m line excuse (Parser.path g name) (Parser.path h name) := by
  refine .traced (Repeats.skipSpaces.bind fun _ => (repeats_textNode hg (by decide) _).bind fun _ => ?_)
  exact Repeats.skipSpaces.bindPure

theorem repeats_pathItems (k k' : Nat) (paths : List Node) :
    Repeats m line excuse (Parser.pathItems g k paths) (Parser.pathItems h k' paths) := by
  refine Repeats.loop _ _ (fun _ => rfl) (fun _ => rfl) (fun k k' paths hround => ?_) k k' paths
  refine Repeats.skipSpaces.bind fun _ => (repeats_path hg _).bind fun item => ?_
  refine Repeats.skipSpaces.bind fun _ => (Repeats.tryExact _ (by decide)).bind fun _ => .ite (.pure _) ?_
  exact (Repeats.tryExact _ (by decide)).bind fun _ => .ite (hround _) (.fail _ _)

theorem repeats_pathGroup : Repeats m line excuse (Parser.pathGroup g) (Parser.pathGroup h) := by
  refine .traced (Repeats.skipSpaces.bind fun _ => (Repeats.expect _ (by decide)).bind fun _ => ?_)
  exact .fuel fun k k' => (repeats_pathItems hg k k' _).bind fun _ => Repeats.skipSpaces.bindPure

theorem repeats_string (name : String) :
    Repeats m line excuse (Parser.string g name) (Parser.string h name) := by
  refine .traced (Repeats.skipSpaces.bind fun _ => (Repeats.look fun c _ => ?_).bind fun _ => ?_)
  · rw [Cursor.startsWith_placed _ (by decide), Cursor.startsWith_placed _ (by decide)]
  · refine .ite hg.expression.of_none ?_
    exact (repeats_textNode hg (by decide) _).bind fun _ => Repeats.skipSpaces.bindPure

theorem repeats_expressionItems (close : String) (hclose : ';' ∉ close.toList) (k k' : Nat)
    (items : List Node) :
    Repeats m line excuse (Parser.expressionItems g close k items) (Parser.expressionItems h close k' items) := by
  refine Repeats.loop _ _ (fun _ => rfl) (fun _ => rfl) (fun k k' items hround => ?_) k k' items
  refine hg.expression.of_none.bind fun _ => (Repeats.tryExact _ hclose).bind fun _ => .ite (.pure _) ?_
  exact (Repeats.tryExact _ (by decide)).bind fun _ => .ite (hround _) (.fail _ _)

theorem repeats_expressionList (close : String) (hclose : ';' ∉ close.toList) :
    Repeats m line excuse (Parser.expressionList g close) (Parser.expressionList h close) := by
  refine .traced (Repeats.skipSpaces.bind fun _ => (Repeats.tryExact _ hclose).bind fun _ => ?_)
  exact .ite (.pure _) (.fuel fun k k' => repeats_expressionItems hg close hclose k k' _)

theorem repeats_arrayItems (k k' : Nat) (items : List Node) :
    Repeats m line excuse (Parser.arrayItems g k items) (Parser.arrayItems h k' items) := by
  refine Repeats.loop _ _ (fun _ => rfl) (fun _ => rfl) (fun k k' items hround => ?_) k k' items
  refine (Repeats.traced hg.expression.of_none).bind fun _ => .token fun ⟨kind, text, start⟩ => ?_
  cases kind with
  | rightBracket => exact .pure _
  | comma => exact hround _
  | _ => exact .failAt _ _ _ _

theorem repeats_array : Repeats m line excuse (Parser.array g) (Parser.array h) := by
  refine .cursor fun start hstart => .token fun ⟨kind, text, offset⟩ => ?_
  cases kind with
  | rightBracket => exact .pure _
  | _ => exact (Repeats.goto hstart).bind fun _ => .fuel fun k k' => (repeats_arrayItems hg k k' _).bindPure

theorem repeats_afterReference (name : String) :
    Repeats m line excuse (Parser.afterReference g name) (Parser.afterReference h name) := by
  refine .cursor fun start hstart => .token fun ⟨kind, text, offset⟩ => ?_
  cases kind with
  | leftBracket =>
    refine (Repeats.traced hg.expression.of_none).bind fun _ => .token fun ⟨kind, text, offset⟩ => ?_
    cases kind with
    | rightBracket => exact .pure _
    | _ => exact .fail _ _
  | _ => exact (Repeats.goto hstart).bindPure

theorem repeats_primary : Repeats m line .unclosed (Parser.primary g) (Parser.primary h) := by
  refine .token fun ⟨kind, text, offset⟩ => ?_
  have hexpression : Repeats m line .unclosed g.expression h.expression := hg.expression.of_none
  cases kind with
  | bool | int | float => exact .pure _
  | quote =>
    have hquotation : Repeats m line .unclosed
        (do let fuel ← Parser.look (·.rest.length + 1); quotationRest g fuel {})
        (do let fuel ← Parser.look (·.rest.length + 1); quotationRest h fuel {}) :=
      .fuel fun k k' => repeats_quotationRest hg k k' _
    rwa [← quotation_eq, ← quotation_eq] at hquotation
  | reference name => exact repeats_afterReference hg name
  | leftEval => exact hexpression.bind fun _ => (Repeats.expect _ (by decide)).bindPure
  | leftParen =>
    refine hexpression.bind fun _ => .token fun ⟨kind, text, offset⟩ => ?_
    cases kind with
    | rightParen => exact .pure _
    | _ => exact .failAt _ _ _ _
  | leftBracket => exact repeats_array hg
  | format =>
    refine Repeats.skipSpaces.bind fun _ => (Repeats.expect _ (by decide)).bind fun _ => ?_
    refine (repeats_expressionList hg ")" (by decide)).bind fun items => ?_
    cases items with
    | cons template args => exact .pure _
    | nil => exact .fail _ _
  | _ => exact .failAt _ _ _ _

theorem repeats_unary : Repeats m line .unclosed (Parser.unary g) (Parser.unary h) := by
  refine .cursor fun start hstart => .token fun ⟨kind, text, offset⟩ => ?_
  have hback : Repeats m line .unclosed (do Parser.goto start; Parser.primary g)
      (do Parser.goto (start.placed m); Parser.primary h) :=
    (Repeats.goto hstart).bind fun _ => repeats_primary hg
  cases kind with
  | not => exact hg.unary.bindPure
  | operator op =>
    match op with
    | .arith .add => exact hg.unary
    | .arith .sub => exact hg.unary.bindPure
    | .arith .mul | .arith .div | .arith .intDiv | .arith .mod => exact hback
    | .compare _ | .equal | .notEqual | .and | .or => exact hback
  | _ => exact hback

theorem repeats_binaryTail (level k k' : Nat) (left : Node) :
    Repeats m line .unclosed (Parser.binaryTail g level k left) (Parser.binaryTail h level k' left) := by
  refine Repeats.loop _ _ (fun _ => rfl) (fun _ => rfl) (fun k k' left hround => ?_) k k' left
  refine .cursor fun start hstart => .token fun ⟨kind, text, offset⟩ => ?_
  cases kind with
  | operator op => exact .ite ((hg.binary _).bind fun _ => hround _) (Repeats.goto hstart).bindPure
  | _ => exact (Repeats.goto hstart).bindPure

theorem repeats_binary (level : Nat) :
    Repeats m line .unclosed (Parser.binary g level) (Parser.binary h level) :=
  (repeats_unary hg).bind fun _ => .fuel fun k k' => repeats_binaryTail hg level k k' _

theorem repeats_expression : Repeats m line .unclosed (Parser.expression g) (Parser.expression h) :=
  (repeats_binary hg 1).bind fun _ => Repeats.skipSpaces.bindPure

/-! ### Parts of commands -/

theorem repeats_value : Repeats m line .any (Parser.value g) (Parser.value h) := by
  have hexpression : Repeats m line .any g.expression h.expression := hg.expression.of_none
  refine .traced (Repeats.skipSpaces.bind fun _ => (Repeats.tryExact _ (by decide)).bind fun _ => ?_)
  refine .ite hexpression ((Repeats.startsWith _ (by decide)).bind fun _ => .ite hexpression ?_)
  refine .ifLook (fun c _ => ?_) (fun ctx ctx' c hc hcall => ?_) (.cursor fun start hstart => ?_)
  · rw [Cursor.startsWith_placed _ (by decide), Cursor.startsWith_placed _ (by decide)]
  · have htwo : 2 ≤ c.rest.length := Cursor.length_of_startsWith "$(" (Bool.and_eq_true_iff.1 hcall).1
    have hnested := hg.statements.bind (fun node => (Repeats.expect ")" (by decide)).bindPure (g := fun _ => node))
      fun _ => needsMore_expect ')' (by decide) _
    simp only [Parser.bind_apply, Parser.move, Cursor.skip_placed htwo]
    exact hnested ctx ctx' (c.skip 2) (hc.skip 2)
  · -- Whether the value is an expression up to its end, and thus how it is read, does not change.
    refine (Repeats.attempt hg.expression).bind fun node => ?_
    cases node with
    | none => exact repeats_string hg _
    | some node =>
      refine Repeats.valueEnds.bind fun _ => .ite (.cursor fun stop hstop => ?_) ?_
      · rw [Cursor.charsSince_placed hstart hstop]
        exact .pure _
      · exact (Repeats.goto hstart).bind fun _ => repeats_string hg _

omit hg in
theorem repeats_optionWords (k k' : Nat) (words : List String) :
    Repeats m line excuse (Parser.optionWords k words) (Parser.optionWords k' words) := by
  refine Repeats.loop _ _ (fun _ => rfl) (fun _ => rfl) (fun k k' words hround => ?_) k k' words
  refine Repeats.complexWord.bind fun _ => (Repeats.tryExact _ (by decide)).bind fun _ => ?_
  exact .ite (hround _) (.pure _)

omit hg in
theorem repeats_optionValue : Repeats m line .any Parser.optionValue Parser.optionValue := by
  refine .traced (Repeats.skipSpaces.bind fun _ => (Repeats.tryExact _ (by decide)).bind fun _ => ?_)
  refine .ite (.cursor fun first hfirst => ?_) (.fuel fun k k' => ?_)
  · refine (repeatsInside_skipWhile _).bind (fun _ => .cursor fun last hlast => ?_) fun _ => ?_
    · rw [Cursor.textSince_placed hfirst hlast]
      refine (Repeats.expect _ (by decide)).bind fun _ => Repeats.skipSpaces.bind fun _ => .pure _
    · intro ctx c
      exact needsMore_expect '"' (by decide) _ ctx c
  · exact (repeats_optionWords k k' _).bind fun _ => .ite (.fail _ _) (.pure _)

omit hg in
theorem repeats_optionItems (withValue flags : List String) (k k' : Nat) (options : Dict String) :
    Repeats m line .any (Parser.optionItems withValue flags k options)
      (Parser.optionItems withValue flags k' options) := by
  refine Repeats.loop _ _ (fun _ => rfl) (fun _ => rfl) (fun k k' options hround => ?_) k k' options
  refine Repeats.skipSpaces.bind fun _ => ?_
  intro ctx ctx' c hc
  simp only [Parser.bind_apply, Parser.cursor, Cursor.peek?_placed (m := m) (c := c) '-' (by decide)]
  by_cases hdash : c.peek? = some '-'
  · have hone := Cursor.length_of_peek? hdash
    have hmove : Echoes m line .any (Parser.move (·.skip 1) ctx c) (Parser.move (·.skip 1) ctx' (c.placed m)) := by
      simp only [Parser.move, Cursor.skip_placed hone]
      exact .ok (hc.skip 1)
    rw [Cursor.any_peekAt?_placed hone (by decide)]
    split
    · refine hmove.bind fun _ c hc => ?_
      refine Repeats.bind Repeats.simpleWord (fun name => .ite (hround _) (.ite ?_ ?_)) ctx ctx' c hc
      · exact repeats_optionValue.bind fun _ => hround _
      · exact .failAt _ _ _ _
    · exact .ok hc
  · rw [if_neg fun h => hdash h.1, if_neg fun h => hdash h.1]
    exact .ok hc

omit hg in
theorem repeats_options (withValue flags : List String) :
    Repeats m line .any (Parser.options withValue flags) (Parser.options withValue flags) :=
  .traced (.fuel fun k k' => repeats_optionItems _ _ k k' _)

omit hg in
theorem repeats_separator : Repeats m line excuse Parser.separator Parser.separator :=
  Repeats.skipSpaces.bind fun _ => .expect _ (by decide)

theorem repeats_body : Repeats m line .any (Parser.body g) (Parser.body h) := by
  refine .traced (Repeats.skipSpaces.bind fun _ => (Repeats.expect _ (by decide)).bind fun _ => ?_)
  refine hg.statements.bind (fun _ => Repeats.skipSpaces.bind fun _ => ?_) fun _ => ?_
  · exact (Repeats.expect _ (by decide)).bindPure
  · exact NeedsMore.afterSpaces (needsMore_expect '\x7d' (by decide) _)

theorem repeats_optionalPath : Repeats m line excuse (Parser.optionalPath g) (Parser.optionalPath h) :=
  Repeats.commandEnds.bind fun _ => .ite (.pure _) (repeats_path hg _).bindPure

theorem repeats_optionalExpression (name : String) :
    Repeats m line excuse (Parser.optionalExpression g name) (Parser.optionalExpression h name) :=
  Repeats.commandEnds.bind fun _ => .ite (.pure _) (Repeats.traced hg.expression.of_none).bindPure

theorem repeats_optionalValue : Repeats m line .any (Parser.optionalValue g) (Parser.optionalValue h) := by
  refine Repeats.skipSpaces.bind fun _ => (Repeats.tryExact _ (by decide)).bind fun _ => ?_
  exact .ite (repeats_value hg).bindPure (.pure _)

theorem repeats_listFilters (k k' : Nat) (filters : List (String × Node)) :
    Repeats m line excuse (Parser.listFilters g k filters) (Parser.listFilters h k' filters) := by
  refine Repeats.loop _ _ (fun _ => rfl) (fun _ => rfl) (fun k k' filters hround => ?_) k k' filters
  refine Repeats.commandEnds.bind fun _ => .ite (.pure _) ?_
  refine (Repeats.traced Repeats.complexWord).bind fun _ => .ite (.fail _ _) ?_
  refine (Repeats.expect _ (by decide)).bind fun _ => ?_
  exact (repeats_textNode hg (by decide) _).bind fun _ => hround _

/-! ### Commands -/

theorem repeats_listing (category : Option Kind) :
    Repeats m line .any (Parser.listing g category) (Parser.listing h category) := by
  refine (repeats_options _ _).bind fun options => .cursor fun start hstart => ?_
  refine Repeats.simpleWord.bind fun word => (Repeats.look fun c _ => ?_).bind fun filtersOnly => ?_
  · rw [Cursor.startsWith_placed _ (by decide)]
  refine (Repeats.goto hstart).bind fun _ => ?_
  extract_lets afterPath afterHere afterPath' afterHere'
  have hpath : ∀ path, Repeats m line .any (afterPath path) (afterPath' path) := fun path =>
    .fuel fun k k' => (repeats_listFilters hg k k' _).bindPure
  have hhere : ∀ here, Repeats m line .any (afterHere here) (afterHere' here) := fun here =>
    .ite ((Repeats.pure _).bind hpath) ((repeats_path hg _).bind hpath)
  exact .ite ((Repeats.pure _).bind hhere) (Repeats.commandEnds.bind hhere)

omit hg in
theorem repeats_variableName : Repeats m line excuse Parser.variableName Parser.variableName :=
  (Repeats.traced Repeats.simpleWord).bind fun _ => .ite (.fail _ _) (.pure _)

theorem repeats_unset : Repeats m line .any (Parser.unset g) (Parser.unset h) := by
  refine (repeats_options _ _).bind fun options => ?_
  split
  · exact .pure _
  · exact .pure _
  · refine (repeats_path hg _).bind fun _ => (Repeats.expect _ (by decide)).bind fun _ => ?_
    refine (Repeats.traced Repeats.complexWord).bind fun _ => .ite (.fail _ _) ?_
    refine (Repeats.tryExact _ (by decide)).bind fun _ => .ite ?_ (.pure _)
    refine (Repeats.traced hg.expression.of_none).bind fun _ => ?_
    exact (Repeats.expect _ (by decide)).bindPure

theorem repeats_env : Repeats m line .any (Parser.env g) (Parser.env h) := by
  refine Repeats.commandEnds.bind fun _ => .ite (.pure _) ?_
  refine (Repeats.traced Repeats.simpleWord).bind fun _ => (Repeats.expect _ (by decide)).bind fun _ => ?_
  exact (repeats_value hg).bindPure

theorem repeats_printfItems (k k' : Nat) (items : List Node) :
    Repeats m line excuse (Parser.printfItems g k items) (Parser.printfItems h k' items) := by
  refine Repeats.loop _ _ (fun _ => rfl) (fun _ => rfl) (fun k k' items hround => ?_) k k' items
  refine hg.expression.of_none.bind fun _ => (Repeats.tryExact _ (by decide)).bind fun _ => ?_
  exact .ite (hround _) (.pure _)

theorem repeats_printf : Repeats m line excuse (Parser.printf g) (Parser.printf h) := by
  refine .fuel fun k k' => (repeats_printfItems hg k k' _).bind fun items => ?_
  cases items with
  | cons template args => exact .pure _
  | nil => exact .fail _ _

theorem repeats_conditional (k k' : Nat) :
    Repeats m line .any (Parser.conditional g k) (Parser.conditional h k') := by
  refine Repeats.loop (fun k (_ : Unit) => Parser.conditional g k) (fun k _ => Parser.conditional h k)
    (fun _ => rfl) (fun _ => rfl) (fun k k' _ hround => ?_) k k' ()
  refine (Repeats.traced hg.expression.of_none).bind fun _ => (repeats_body hg).bind fun _ => ?_
  refine Repeats.skipSpaces.bind fun _ => (Repeats.tryExact _ (by decide)).bind fun _ => ?_
  refine .ite (Repeats.traced (hround ())).bindPure ?_
  refine (Repeats.tryExact _ (by decide)).bind fun _ => .ite (repeats_body hg).bindPure (.pure _)

theorem repeats_countedLoop : Repeats m line .any (Parser.countedLoop g) (Parser.countedLoop h) := by
  refine hg.statement.bind fun _ => Repeats.skipSpaces.bind fun _ => Repeats.expectSemicolon.bind fun _ => ?_
  refine (Repeats.traced hg.expression.of_none).bind fun _ => Repeats.expectSemicolon.bind fun _ => ?_
  refine hg.statement.bind fun _ => Repeats.skipSpaces.bind fun _ => ?_
  exact (Repeats.expect _ (by decide)).bind fun _ => (repeats_body hg).bindPure

theorem repeats_forLoop : Repeats m line .any (Parser.forLoop g) (Parser.forLoop h) := by
  have hexpression : Repeats m line .any g.expression h.expression := hg.expression.of_none
  refine Repeats.skipSpaces.bind fun _ => (Repeats.tryExact _ (by decide)).bind fun _ => ?_
  refine .ite (repeats_countedLoop hg) ((Repeats.traced Repeats.simpleWord).bind fun _ => .ite (.fail _ _) ?_)
  refine (Repeats.tryExact _ (by decide)).bind fun _ => .ite ?_ (.fail _ _)
  refine (Repeats.look fun c _ => Cursor.nextIs_placed (by decide) c).bind fun _ => .ite (.fail _ _) ?_
  refine hexpression.bind fun _ => (Repeats.tryExact _ (by decide)).bind fun _ => ?_
  refine .ite ?_ (repeats_body hg).bindPure
  exact hexpression.traced.bind fun _ => (repeats_body hg).bindPure

theorem repeats_select : Repeats m line excuse (Parser.select g) (Parser.select h) := by
  refine Repeats.skipSpaces.bind fun _ => (Repeats.startsWith _ (by decide)).bind fun _ => ?_
  refine .ite (repeats_pathGroup hg).bindPure ((repeats_optionalPath hg).bind fun path => ?_)
  cases path with
  | some path => exact .pure _
  | none => exact .pure _

theorem repeats_delete : Repeats m line excuse (Parser.delete g) (Parser.delete h) := by
  refine .cursor fun start hstart => (Repeats.tryExact _ (by decide)).bind fun isSelection => ?_
  refine (Repeats.look fun c _ => ?_).bind fun _ => .ite (.pure _) ?_
  · rw [Cursor.nextIs_placed (by decide)]
  · exact (Repeats.goto hstart).bind fun _ => (repeats_path hg _).bindPure

theorem repeats_threeValues : Repeats m line .any (Parser.threeValues g) (Parser.threeValues h) := by
  refine repeats_separator.bind fun _ => (repeats_value hg).bind fun _ => ?_
  refine repeats_separator.bind fun _ => (repeats_value hg).bind fun _ => ?_
  exact repeats_separator.bind fun _ => (repeats_value hg).bindPure

theorem repeats_creation (creatable : Creatable) :
    Repeats m line .any (Parser.creation g creatable) (Parser.creation h creatable) := by
  have hexpect : Repeats m line .any (Parser.expect ":") (Parser.expect ":") := .expect ":" (by decide)
  have hpath : Repeats m line .any (Parser.path g "") (Parser.path h "") := repeats_path hg ""
  have hvalue := repeats_value hg
  cases creatable with
  | orphan =>
    refine Repeats.skipSpaces.bind fun _ => (Repeats.keyword? (by decide)).bind fun found => ?_
    cases found with
    | none => exact .fail _ _
    | some found =>
      exact hexpect.bind fun _ => hpath.bind fun _ => repeats_separator.bind fun _ => hvalue.bindPure
  | domain =>
    exact hexpect.bind fun _ => hpath.bind fun _ => repeats_separator.bind fun _ => hvalue.bindPure
  | site => exact hexpect.bind fun _ => hpath.bindPure
  | building | rack => exact hexpect.bind fun _ => hpath.bind fun _ => (repeats_threeValues hg).bindPure
  | room =>
    refine hexpect.bind fun _ => hpath.bind fun _ => (repeats_threeValues hg).bind fun _ => ?_
    refine (repeats_optionalValue hg).bind fun axis => ?_
    cases axis with
    | none => exact .pure _
    | some axis => exact (repeats_optionalValue hg).bindPure
  | device =>
    refine hexpect.bind fun _ => hpath.bind fun _ => repeats_separator.bind fun _ => ?_
    refine hvalue.bind fun _ => repeats_separator.bind fun _ => hvalue.bind fun _ => ?_
    exact (repeats_optionalValue hg).bindPure
  | corridor =>
    refine hexpect.bind fun _ => hpath.bind fun _ => repeats_separator.bind fun _ => ?_
    refine .cursor fun start _ => (repeats_pathGroup hg).bind fun racks => ?_
    match racks with
    | [left, right] => exact repeats_separator.bind fun _ => hvalue.bindPure
    | [] | [_] | _ :: _ :: _ :: _ => exact .failAt _ _ _ _
  | group =>
    refine hexpect.bind fun _ => hpath.bind fun _ => repeats_separator.bind fun _ => ?_
    exact (repeats_pathGroup hg).bindPure
  | tag =>
    refine hexpect.bind fun _ => (repeats_string hg _).bind fun _ => repeats_separator.bind fun _ => ?_
    exact hvalue.bindPure

theorem repeats_create : Repeats m line .any (Parser.create g) (Parser.create h) := by
  refine (Repeats.keyword? (by decide)).bind fun found => ?_
  cases found with
  | none => exact .fail _ _
  | some found => exact (Repeats.traced (repeats_creation hg _)).bindPure

theorem repeats_valueItems (k k' : Nat) (values : List Node) :
    Repeats m line .any (Parser.valueItems g k values) (Parser.valueItems h k' values) := by
  refine Repeats.loop _ _ (fun _ => rfl) (fun _ => rfl) (fun k k' values hround => ?_) k k' values
  refine (repeats_value hg).bind fun _ => Repeats.skipSpaces.bind fun _ => ?_
  exact (Repeats.tryExact _ (by decide)).bind fun _ => .ite (hround _) (.pure _)

theorem repeats_update : Repeats m line .any (Parser.update g) (Parser.update h) := by
  refine .traced ((repeats_path hg _).bind fun _ => (Repeats.tryExact _ (by decide)).bind fun _ => ?_)
  refine .ite ((Repeats.traced Repeats.complexWord).bind fun _ => .ite (.fail _ _) ?_) (.fail _ _)
  refine (Repeats.expect _ (by decide)).bind fun _ => Repeats.skipSpaces.bind fun _ => ?_
  refine (Repeats.tryExact _ (by decide)).bind fun _ => .fuel fun k k' => ?_
  exact (repeats_valueItems hg k k' _).bindPure

theorem repeats_link : Repeats m line .any (Parser.link g) (Parser.link h) := by
  refine (repeats_path hg _).bind fun _ => repeats_separator.bind fun _ => ?_
  exact (repeats_path hg _).bind fun _ => (repeats_optionalValue hg).bindPure

theorem repeats_unlink : Repeats m line excuse (Parser.unlink g) (Parser.unlink h) := by
  refine (repeats_path hg _).bind fun _ => Repeats.skipSpaces.bind fun _ => ?_
  exact (Repeats.tryExact _ (by decide)).bind fun _ => .ite (repeats_path hg _).bindPure (.pure _)

theorem repeats_draw : Repeats m line .any (Parser.draw g) (Parser.draw h) :=
  (repeats_options _ _).bind fun _ => (repeats_optionalPath hg).bind fun _ =>
    (repeats_optionalExpression hg _).bindPure

theorem repeats_ui : Repeats m line .any (Parser.ui g) (Parser.ui h) := by
  have hequals {p q : Parser Node} (hp : Repeats m line .any p q) :
      Repeats m line .any (do Parser.skipSpaces; Parser.expect "="; p)
        (do Parser.skipSpaces; Parser.expect "="; q) :=
    Repeats.skipSpaces.bind fun _ => (Repeats.expect _ (by decide)).bind fun _ => hp
  have hexpression : Repeats m line .any g.expression h.expression := hg.expression.of_none
  refine (Repeats.keyword? (by decide)).bind fun found => ?_
  match found with
  | none => exact .fail _ _
  | some (_, .clearCache) => exact .pure _
  | some (_, .delay) => exact hequals hexpression.traced.bindPure
  | some (_, .highlight) => exact hequals (repeats_path hg _).bindPure
  | some (_, .toggle feature) => exact hequals hexpression.traced.bindPure

theorem repeats_camera : Repeats m line .any (Parser.camera g) (Parser.camera h) := by
  have hexpression : Repeats m line .any g.expression h.expression := hg.expression.of_none
  refine (Repeats.keyword? (by decide)).bind fun found => ?_
  match found with
  | none => exact .fail _ _
  | some (_, .wait) =>
    refine Repeats.skipSpaces.bind fun _ => (Repeats.expect _ (by decide)).bind fun _ => ?_
    exact hexpression.traced.bindPure
  | some (_, .go motion) =>
    refine Repeats.skipSpaces.bind fun _ => (Repeats.expect _ (by decide)).bind fun _ => ?_
    refine hexpression.traced.bind fun _ => repeats_separator.bind fun _ => ?_
    exact hexpression.traced.bindPure

omit hg in
theorem repeats_manual : Repeats m line excuse Parser.manual Parser.manual := by
  refine Repeats.commandEnds.bind fun _ => .ite (.pure _) (.cursor fun first hfirst => ?_)
  refine (Repeats.skipWhile (by decide)).bind fun _ => .cursor fun last hlast => ?_
  rw [Cursor.textSince_placed hfirst hlast]
  exact .pure _

theorem repeats_afterKeyword (keyword : Keyword) :
    Repeats m line .any (Parser.afterKeyword g keyword) (Parser.afterKeyword h keyword) := by
  have hpath (name : String) : Repeats m line .any (Parser.path g name) (Parser.path h name) :=
    repeats_path hg name
  have hstring (name : String) : Repeats m line .any (Parser.string g name) (Parser.string h name) :=
    repeats_string hg name
  have hvalue := repeats_value hg
  have hbody := repeats_body hg
  have hexpression : Repeats m line .any g.expression h.expression := hg.expression.of_none
  cases keyword with
  | list category => exact repeats_listing hg category
  | get => exact (hpath _).bindPure
  | getUnit => exact (hpath _).bind fun _ => hexpression.traced.bindPure
  | getSlot => exact (hpath _).bind fun _ => hvalue.bindPure
  | undraw | focus | changeDir => exact (repeats_optionalPath hg).bindPure
  | draw => exact repeats_draw hg
  | drawable =>
    refine (hpath _).bind fun _ => Repeats.commandEnds.bind fun _ => .ite (.pure _) ?_
    exact (Repeats.traced Repeats.complexWord).bindPure
  | unset => exact repeats_unset hg
  | env => exact repeats_env hg
  | create => exact repeats_create hg
  | delete => exact repeats_delete hg
  | select => exact repeats_select hg
  | assign =>
    refine repeats_variableName.bind fun _ => (Repeats.expect _ (by decide)).bind fun _ => ?_
    exact hvalue.bindPure
  | runScript | checkScript | loadTemplate | print => exact (hstring _).bindPure
  | length => exact repeats_variableName.bindPure
  | link => exact repeats_link hg
  | unlink => exact repeats_unlink hg
  | copy => exact (hpath _).bind fun _ => (hstring _).bindPure
  | printf => exact repeats_printf hg
  | manual => exact repeats_manual
  | tree => exact (repeats_optionalPath hg).bind fun _ => (repeats_optionalExpression hg _).bindPure
  | ui => exact repeats_ui hg
  | camera => exact repeats_camera hg
  | whileLoop => exact hexpression.traced.bind fun _ => hbody.bindPure
  | forLoop => exact repeats_forLoop hg
  | conditional => exact .fuel fun k k' => repeats_conditional hg k k'
  | defineAlias =>
    exact (Repeats.traced Repeats.simpleWord).bind fun _ => .ite (.fail _ _) hbody.bindPure
  | connect => exact Repeats.commandEnds.bind fun _ => .ite (.pure _) (hstring _).bindPure
  | printSelection | clearScreen | showPeers | printDir | exit | disconnect => exact .pure _

omit hg in
theorem Cursor.isSetOff_placed (c : Cursor) : Parser.isSetOff (c.placed m) = Parser.isSetOff c :=
  Cursor.stops_placed rfl c

theorem repeats_statement : Repeats m line .any (Parser.statement g) (Parser.statement h) := by
  refine .traced (Repeats.commandEnds.bind fun _ => .ite (.pure _) (.cursor fun start hstart => ?_))
  refine (Repeats.keyword? (by decide)).bind fun found => ?_
  cases found with
  | some found =>
    refine (Repeats.look fun c _ => ?_).bind fun _ => .ite (.failAt _ _ _ _) ?_
    · rw [Cursor.isSetOff_placed]
    · exact .traced (repeats_afterKeyword hg _)
  | none =>
    refine Repeats.simpleWord.bind fun name => ?_
    extract_lets afterName afterName'
    have hname : ∀ ends, Repeats m line .any (afterName ends) (afterName' ends) := fun ends =>
      .ite (.pure _) ((Repeats.goto hstart).bind fun _ => repeats_update hg)
    exact .ite ((Repeats.pure _).bind hname) (Repeats.commandEnds.bind hname)

end Rules

end TwinShell.Language
