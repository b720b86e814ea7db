import TwinShell.Proofs.Language.Progress

/-!
# Reading comes to an end

Nesting and loops are bounded, so a parser could give up on a line that it could read with a larger bound. It never does: whatever is nested stands behind a character that was read before it, and every round of a loop reads a character. So the parsers for nesting up to `d` come to an end from every place with fewer than `d` characters left, by induction on `d`.
-/

namespace TwinShell.Language

variable {n d : Nat}

/-- The parsers for nested parts come to an end from any place with fewer than `d` characters left. -/
structure Grammar.Ends (d : Nat) (g : Grammar) : Prop where
  expression : ∀ {n}, n ≤ d → Language.Ends n (fun _ => n) g.expression
  binary : ∀ {n} level, n ≤ d → Language.Ends n (fun _ => n) (g.binary level)
  unary : ∀ {n}, n ≤ d → Language.Ends n (fun _ => n) g.unary
  statement : ∀ {n}, n ≤ d → Language.Ends n (fun _ => n) g.statement
  statements : ∀ {n}, n ≤ d → Language.Ends n (fun _ => n) g.statements

section Rules

variable {g : Grammar} {fuel : Nat} (hg : g.Ends d)
include hg

/-! ### Expressions and text -/

theorem ends_textPieces (mode : TextMode) (hn : n ≤ d + 1) (fuel : Nat) (pieces : Parser.TextPieces) :
    Ends (min n fuel) (fun _ => min n fuel) (Parser.textPieces g mode fuel pieces) := by
  refine .loop _ (fun n fuel pieces hn hround => ?_) hn fuel pieces
  refine (Ends.textToken mode).bind fun ⟨kind, text, start⟩ => ?_
  dsimp only
  split
  · exact hround _
  · exact hround _
  · have hnested : n - 1 ≤ d := by omega
    exact (hg.expression hnested).bind fun _ => Ends.close.bind fun _ => hround _
  · exact (Ends.pure _).less

theorem ends_textNode (mode : TextMode) (trim : Bool) (hn : n ≤ d + 1) :
    Ends n (fun _ => n) (Parser.textNode g mode trim) :=
  .fuel fun fuel => (ends_textPieces hg mode hn fuel _).bindPure

theorem ends_path (name : String) (hn : n ≤ d + 1) : Ends n (fun _ => n) (Parser.path g name) :=
  .traced (Ends.skipSpaces.bind fun _ => (ends_textNode hg _ _ hn).bind fun _ => Ends.skipSpaces.bindPure)

theorem ends_pathItems (hn : n ≤ d) (fuel : Nat) (paths : List Node) :
    Ends (min n fuel) (fun _ => min n fuel) (Parser.pathItems g fuel paths) := by
  refine .loop _ (fun n fuel paths hn hround => ?_) hn fuel paths
  refine Ends.skipSpaces.bind fun _ => (ends_path hg _ (by omega)).bind fun item => ?_
  refine Ends.skipSpaces.bind fun _ => .ifExact (Ends.pure _).less ?_
  exact .ifExact (hround _) (.fail _)

theorem ends_pathGroup (hn : n ≤ d) : Ends n (fun _ => n) (Parser.pathGroup g) := by
  refine .traced (Ends.skipSpaces.bind fun _ => Ends.close.bind fun _ => .fuel fun fuel => ?_)
  exact (ends_pathItems hg hn fuel _).bind fun _ => Ends.skipSpaces.bindPure

theorem ends_string (name : String) (hn : n ≤ d) : Ends n (fun _ => n) (Parser.string g name) := by
  refine .traced (Ends.skipSpaces.bind fun _ => (Ends.look _).bind fun _ => .ite (hg.expression hn) ?_)
  exact (ends_textNode hg _ _ (by omega)).bind fun _ => Ends.skipSpaces.bindPure

theorem ends_value (hn : n ≤ d) : Ends n (fun _ => n) (Parser.value g) := by
  have hexpression := hg.expression hn
  refine .traced (Ends.skipSpaces.bind fun _ => .ifExact ?_ ((Ends.look _).bind fun _ => .ite hexpression ?_))
  · exact hexpression.less
  refine (Ends.look _).bind fun _ => .ite ?_ (.cursor fun start hstart => ?_)
  · exact (Ends.skip 2).bind fun _ => (hg.statements hn).bind fun _ => Ends.close.bindPure
  refine hexpression.attempt.bind fun node => ?_
  split
  · refine Ends.valueEnds.bind fun _ => .ite (.cursor fun _ _ => .pure _) ?_
    exact (Ends.goto hstart).bind fun _ => ends_string hg _ hn
  · exact ends_string hg _ hn

theorem ends_expressionItems (close : String) (hn : n ≤ d) (fuel : Nat) (items : List Node) :
    Ends (min n fuel) (fun _ => min n fuel) (Parser.expressionItems g close fuel items) := by
  refine .loop _ (fun n fuel items hn hround => ?_) hn fuel items
  refine (hg.expression hn).bind fun _ => .ifExact (Ends.pure _).less ?_
  exact .ifExact (hround _) (.fail _)

theorem ends_expressionList (close : String) (hn : n ≤ d) :
    Ends n (fun _ => n) (Parser.expressionList g close) := by
  refine .traced (Ends.skipSpaces.bind fun _ => .ifExact (Ends.pure _).less ?_)
  exact .fuel fun fuel => ends_expressionItems hg close hn fuel _

theorem ends_arrayItems (hn : n ≤ d) (fuel : Nat) (items : List Node) :
    Ends (min n fuel) (fun _ => min n fuel) (Parser.arrayItems g fuel items) := by
  refine .loop _ (fun n fuel items hn hround => ?_) hn fuel items
  refine (Ends.traced (hg.expression hn)).bind fun _ => Ends.token.bind fun ⟨kind, text, start⟩ => ?_
  dsimp only
  split
  · exact (Ends.pure _).less
  · exact hround _
  · exact .failAt _ _

theorem ends_array (hn : n ≤ d) : Ends n (fun _ => n) (Parser.array g) := by
  refine .cursor fun start hstart => Ends.token.bind fun token => ?_
  split
  · exact (Ends.pure _).less
  · refine (Ends.goto hstart).bind fun _ => .fuel fun fuel => ?_
    exact (ends_arrayItems hg hn fuel _).bindPure

theorem ends_afterReference (name : String) (hn : n ≤ d) :
    Ends n (fun _ => n) (Parser.afterReference g name) := by
  refine .cursor fun start hstart => Ends.token.bind fun token => ?_
  split
  · refine (Ends.traced (hg.expression hn)).less.bind fun _ => Ends.token.bind fun close => ?_
    split
    · exact (Ends.pure _).less
    · exact .fail _
  · exact (Ends.goto hstart).bindPure

theorem ends_primary (hn : n ≤ d + 1) : Ends n (fun _ => n) (Parser.primary g) := by
  refine Ends.token.bind fun ⟨kind, text, start⟩ => ?_
  -- Whatever is nested here stands behind the token that opens it.
  have hnested : n - 1 ≤ d := by omega
  have hle : ∀ _ : Node, n - 1 ≤ n := fun _ => Nat.sub_le n 1
  have hexpression := hg.expression hnested
  cases kind with
  | bool | int | float => exact (Ends.pure _).less
  | quote => exact ((ends_textNode hg _ _ hn).bind fun _ => Ends.close.bindPure).less
  | reference name => exact (ends_afterReference hg name hnested).le hle
  | leftEval => exact (hexpression.bind fun _ => Ends.close.bindPure).le hle
  | leftParen =>
    refine (hexpression.bind fun _ => Ends.token.bind fun close => ?_).le hle
    split
    · exact (Ends.pure _).less
    · exact .failAt _ _
  | leftBracket => exact (ends_array hg hnested).le hle
  | format =>
    refine Ends.skipSpaces.bind fun _ => Ends.close.bind fun _ => ?_
    refine (ends_expressionList hg _ hnested).bind fun items => ?_
    split
    · exact (Ends.pure _).less
    · exact .fail _
  | _ => exact .failAt _ _

theorem ends_unary (hn : n ≤ d + 1) : Ends n (fun _ => n) (Parser.unary g) := by
  refine .cursor fun start hstart => Ends.token.bind fun ⟨kind, text, offset⟩ => ?_
  have hunary : Ends (n - 1) (fun _ => n) g.unary :=
    (hg.unary (by omega)).le fun _ => Nat.sub_le n 1
  dsimp only
  split
  · exact hunary
  · exact hunary.bindPure
  · exact hunary.bindPure
  · exact (Ends.goto hstart).bind fun _ => ends_primary hg hn

theorem ends_binaryTail (level : Nat) (hn : n ≤ d + 1) (fuel : Nat) (left : Node) :
    Ends (min n fuel) (fun _ => min n fuel) (Parser.binaryTail g level fuel left) := by
  refine .loop _ (fun n fuel left hn hround => ?_) hn fuel left
  refine .cursor fun start hstart => Ends.token.bind fun ⟨kind, text, offset⟩ => ?_
  have hnested : n - 1 ≤ d := by omega
  dsimp only
  split
  · exact .ite ((hg.binary _ hnested).bind fun _ => hround _) (Ends.goto hstart).bindPure
  · exact (Ends.goto hstart).bindPure

theorem ends_binary (level : Nat) (hn : n ≤ d + 1) : Ends n (fun _ => n) (Parser.binary g level) :=
  (ends_unary hg hn).bind fun _ => .fuel fun fuel => ends_binaryTail hg level hn fuel _

theorem ends_expression (hn : n ≤ d + 1) : Ends n (fun _ => n) (Parser.expression g) :=
  (ends_binary hg 1 hn).bind fun _ => Ends.skipSpaces.bindPure

/-! ### Parts of commands -/

omit hg in
theorem ends_optionWords (fuel : Nat) (words : List String) :
    Ends (min n fuel) (fun _ => min n fuel) (Parser.optionWords fuel words) := by
  refine .loop (d := n) _ (fun n fuel words _ hround => ?_) (Nat.le_refl n) fuel words
  exact Ends.complexWord.bind fun _ => .ifExact (hround _) (.pure _)

omit hg in
theorem ends_optionValue : Ends n (fun _ => n) Parser.optionValue := by
  refine .traced (Ends.skipSpaces.bind fun _ => .ifExact ?_ ?_)
  · refine .cursor fun _ _ => (Ends.skipWhile _).bind fun _ => .cursor fun _ _ => Ends.close.bind fun _ => ?_
    exact Ends.skipSpaces.bindPure.less
  · exact .fuel fun fuel => (ends_optionWords fuel _).bind fun _ => .ite (.fail _) (.pure _)

omit hg in
theorem ends_optionItems (withValue flags : List String) (fuel : Nat) (options : Dict String) :
    Ends (min n fuel) (fun _ => min n fuel) (Parser.optionItems withValue flags fuel options) := by
  refine .loop (d := n) _ (fun n fuel options _ hround => ?_) (Nat.le_refl n) fuel options
  refine Ends.skipSpaces.bind fun _ => ?_
  intro ctx c hc
  -- The dash of an option is the character that its round reads.
  have hoption (hdash : c.peek? = some '-') :
      Ends (n - 1) (fun _ => n) (do
        let name ← Parser.simpleWord
        if flags.contains name then Parser.optionItems withValue flags fuel (options.insert name "")
        else if withValue.contains name then
          let value ← Parser.optionValue
          Parser.optionItems withValue flags fuel (options.insert name value)
        else Parser.failAt c.pos (.unexpectedArgument name)) := by
    refine Ends.simpleWord.bind fun name => .ite (hround _) (.ite ?_ (.failAt _ _))
    exact ends_optionValue.bind fun _ => hround _
  simp only [Parser.bind_apply, Parser.cursor]
  split
  · rename_i hdash
    refine hoption hdash.1 ctx (c.skip 1) ?_
    have hlength := c.isIn_ownLine.length_le (k := 1) (c.isIn_ownLine.skip 1)
      (Cursor.pos_lt_skip hdash.1 Nat.one_pos)
    omega
  · exact (Ends.pure options) ctx c hc

omit hg in
theorem ends_options (withValue flags : List String) :
    Ends n (fun _ => n) (Parser.options withValue flags) :=
  .traced (.fuel fun fuel => ends_optionItems _ _ fuel _)

omit hg in
theorem ends_separator : Ends n (fun _ => n) Parser.separator := Ends.skipSpaces.bind fun _ => Ends.close

theorem ends_body (hn : n ≤ d) : Ends n (fun _ => n) (Parser.body g) := by
  refine .traced (Ends.skipSpaces.bind fun _ => Ends.close.bind fun _ => ?_)
  exact (hg.statements hn).bind fun _ => Ends.skipSpaces.bind fun _ => Ends.close.bindPure

theorem ends_optionalPath (hn : n ≤ d) : Ends n (fun _ => n) (Parser.optionalPath g) :=
  Ends.commandEnds.bind fun _ => .ite (.pure _) (ends_path hg _ (by omega)).bindPure

theorem ends_optionalExpression (name : String) (hn : n ≤ d) :
    Ends n (fun _ => n) (Parser.optionalExpression g name) :=
  Ends.commandEnds.bind fun _ => .ite (.pure _) (Ends.traced (hg.expression hn)).bindPure

theorem ends_optionalValue (hn : n ≤ d) : Ends n (fun _ => n) (Parser.optionalValue g) := by
  refine Ends.skipSpaces.bind fun _ => .ifExact ?_ (.pure _)
  exact (ends_value hg hn).bindPure.less

theorem ends_listFilters (hn : n ≤ d) (fuel : Nat) (filters : List (String × Node)) :
    Ends (min n fuel) (fun _ => min n fuel) (Parser.listFilters g fuel filters) := by
  refine .loop _ (fun n fuel filters hn hround => ?_) hn fuel filters
  refine Ends.commandEnds.bind fun _ => .ite (.pure _) ?_
  refine (Ends.traced Ends.complexWord).bind fun _ => .ite (.fail _) ((Ends.expect "=").bind fun _ => ?_)
  have hle : n - 1 ≤ d + 1 := by omega
  exact (ends_textNode hg _ _ hle).bind fun _ => hround _

/-! ### Commands -/

theorem ends_listing (category : Option Kind) (hn : n ≤ d) :
    Ends n (fun _ => n) (Parser.listing g category) := by
  refine (ends_options _ _).bind fun options => .cursor fun start hstart => ?_
  refine Ends.simpleWord.bind fun word => (Ends.look _).bind fun filtersOnly => ?_
  refine (Ends.goto hstart).bind fun _ => ?_
  extract_lets afterPath afterHere
  have hpath : ∀ path, Ends n (fun _ => n) (afterPath path) := fun path =>
    .fuel fun fuel => (ends_listFilters hg hn fuel _).bindPure
  have hhere : ∀ here, Ends n (fun _ => n) (afterHere here) := fun here =>
    .ite ((Ends.pure _).bind hpath) ((ends_path hg _ (by omega)).bind hpath)
  exact .ite ((Ends.pure _).bind hhere) (Ends.commandEnds.bind hhere)

omit hg in
theorem ends_variableName : Ends n (fun _ => n) Parser.variableName :=
  (Ends.traced Ends.simpleWord).bind fun _ => .ite (.fail _) (.pure _)

theorem ends_unset (hn : n ≤ d) : Ends n (fun _ => n) (Parser.unset g) := by
  refine (ends_options _ _).bind fun options => ?_
  split
  · exact .pure _
  · exact .pure _
  · refine (ends_path hg _ (by omega)).bind fun _ => Ends.close.bind fun _ => ?_
    refine (Ends.traced Ends.complexWord).bind fun _ => .ite (.fail _) (.ifExact ?_ (.pure _))
    exact ((Ends.traced (hg.expression hn)).bind fun _ => Ends.close.bindPure).less

theorem ends_env (hn : n ≤ d) : Ends n (fun _ => n) (Parser.env g) := by
  refine Ends.commandEnds.bind fun _ => .ite (.pure _) ?_
  refine (Ends.traced Ends.simpleWord).bind fun _ => Ends.close.bind fun _ => ?_
  exact (ends_value hg hn).bindPure

theorem ends_printfItems (hn : n ≤ d) (fuel : Nat) (items : List Node) :
    Ends (min n fuel) (fun _ => min n fuel) (Parser.printfItems g fuel items) := by
  refine .loop _ (fun n fuel items hn hround => ?_) hn fuel items
  exact (hg.expression hn).bind fun _ => .ifExact (hround _) (.pure _)

theorem ends_printf (hn : n ≤ d) : Ends n (fun _ => n) (Parser.printf g) := by
  refine .fuel fun fuel => (ends_printfItems hg hn fuel _).bind fun items => ?_
  split
  · exact .pure _
  · exact .fail _

theorem ends_conditional (hn : n ≤ d) (fuel : Nat) :
    Ends (min n fuel) (fun _ => min n fuel) (Parser.conditional g fuel) := by
  refine .loop (fun fuel (_ : Unit) => Parser.conditional g fuel)
    (fun n fuel _ hn hround => ?_) hn fuel ()
  refine (Ends.traced (hg.expression hn)).bind fun _ => (ends_body hg hn).bind fun _ => ?_
  refine Ends.skipSpaces.bind fun _ => .ifExact ?_ (.ifExact ?_ (.pure _))
  · exact (hround ()).traced.bindPure.of_le (Nat.sub_le_sub_left (by decide) n)
  · exact (ends_body hg hn).bindPure.less

theorem ends_countedLoop (hn : n ≤ d) : Ends n (fun _ => n) (Parser.countedLoop g) := by
  refine (hg.statement hn).bind fun _ => Ends.skipSpaces.bind fun _ => Ends.close.bind fun _ => ?_
  refine (Ends.traced (hg.expression hn)).bind fun _ => Ends.close.bind fun _ => ?_
  refine (hg.statement hn).bind fun _ => Ends.skipSpaces.bind fun _ => Ends.close.bind fun _ => ?_
  exact (ends_body hg hn).bindPure

theorem ends_forLoop (hn : n ≤ d) : Ends n (fun _ => n) (Parser.forLoop g) := by
  refine Ends.skipSpaces.bind fun _ => .ifExact (ends_countedLoop hg hn).less ?_
  refine (Ends.traced Ends.simpleWord).bind fun _ => .ite (.fail _) (.ifExact ?_ (.fail _))
  refine Ends.less ((Ends.look _).bind fun _ => .ite (.fail _) ((hg.expression hn).bind fun _ => ?_))
  refine .ifExact ?_ (ends_body hg hn).bindPure
  exact ((Ends.traced (hg.expression hn)).bind fun _ => (ends_body hg hn).bindPure).less

theorem ends_select (hn : n ≤ d) : Ends n (fun _ => n) (Parser.select g) := by
  refine Ends.skipSpaces.bind fun _ => (Ends.look _).bind fun _ => .ite (ends_pathGroup hg hn).bindPure ?_
  refine (ends_optionalPath hg hn).bind fun path => ?_
  split <;> exact .pure _

theorem ends_delete (hn : n ≤ d) : Ends n (fun _ => n) (Parser.delete g) := by
  refine .cursor fun start hstart => (Ends.tryExact _).bind fun found => ?_
  have hle : (if found then n - "selection".length else n) ≤ n := by
    split
    · exact Nat.sub_le _ _
    · exact Nat.le_refl n
  refine Ends.of_le ((Ends.look _).bind fun _ => .ite (.pure _) ?_) hle
  exact (Ends.goto hstart).bind fun _ => (ends_path hg _ (by omega)).bindPure

theorem ends_threeValues (hn : n ≤ d) : Ends n (fun _ => n) (Parser.threeValues g) := by
  refine ends_separator.bind fun _ => (ends_value hg hn).bind fun _ => ?_
  refine ends_separator.bind fun _ => (ends_value hg hn).bind fun _ => ?_
  exact ends_separator.bind fun _ => (ends_value hg hn).bindPure

theorem ends_creation (creatable : Creatable) (hn : n ≤ d) :
    Ends n (fun _ => n) (Parser.creation g creatable) := by
  have hexpect : Ends n (fun _ => n) (Parser.expect ":") := .close
  have hpath := ends_path hg "" (Nat.le_succ_of_le hn)
  have hvalue := ends_value hg hn
  have hthree := ends_threeValues hg hn
  cases creatable with
  | orphan =>
    refine Ends.skipSpaces.bind fun _ => (Ends.anyKeyword (by decide)).bind fun found => ?_
    split
    · exact .fail _
    · exact hexpect.bind fun _ => hpath.bind fun _ => ends_separator.bind fun _ => hvalue.bindPure
  | domain => exact hexpect.bind fun _ => hpath.bind fun _ => ends_separator.bind fun _ => hvalue.bindPure
  | site => exact hexpect.bind fun _ => hpath.bindPure
  | building | rack => exact hexpect.bind fun _ => hpath.bind fun _ => hthree.bindPure
  | room =>
    refine hexpect.bind fun _ => hpath.bind fun _ => hthree.bind fun _ => ?_
    refine (ends_optionalValue hg hn).bind fun axis => ?_
    split
    · exact .pure _
    · exact (ends_optionalValue hg hn).bindPure
  | device =>
    refine hexpect.bind fun _ => hpath.bind fun _ => ends_separator.bind fun _ => ?_
    refine hvalue.bind fun _ => ends_separator.bind fun _ => hvalue.bind fun _ => ?_
    exact (ends_optionalValue hg hn).bindPure
  | corridor =>
    refine hexpect.bind fun _ => hpath.bind fun _ => ends_separator.bind fun _ => .cursor fun start _ => ?_
    refine (ends_pathGroup hg hn).bind fun racks => ?_
    split
    · exact ends_separator.bind fun _ => hvalue.bindPure
    · exact .failAt _ _
  | group =>
    refine hexpect.bind fun _ => hpath.bind fun _ => ends_separator.bind fun _ => ?_
    exact (ends_pathGroup hg hn).bindPure
  | tag =>
    refine hexpect.bind fun _ => (ends_string hg _ hn).bind fun _ => ends_separator.bind fun _ => ?_
    exact hvalue.bindPure

theorem ends_create (hn : n ≤ d) : Ends n (fun _ => n) (Parser.create g) := by
  refine (Ends.anyKeyword (by decide)).bind fun found => ?_
  split
  · exact .fail _
  · exact (Ends.traced (ends_creation hg _ hn)).bindPure

theorem ends_valueItems (hn : n ≤ d) (fuel : Nat) (values : List Node) :
    Ends (min n fuel) (fun _ => min n fuel) (Parser.valueItems g fuel values) := by
  refine .loop _ (fun n fuel values hn hround => ?_) hn fuel values
  exact (ends_value hg hn).bind fun _ => Ends.skipSpaces.bind fun _ => .ifExact (hround _) (.pure _)

theorem ends_update (hn : n ≤ d + 1) : Ends n (fun _ => n) (Parser.update g) := by
  refine .traced ((ends_path hg _ hn).bind fun _ => .ifExact ?_ (.fail _))
  refine (Ends.traced Ends.complexWord).bind fun _ => .ite (.fail _) ?_
  refine Ends.close.bind fun _ => Ends.skipSpaces.bind fun _ => (Ends.tryExact _).bind fun sharp => ?_
  have hle : n - 1 ≤ d := by omega
  have hsharp : (if sharp then n - 1 - "#".length else n - 1) ≤ n - 1 := by
    split
    · exact Nat.sub_le _ _
    · exact Nat.le_refl _
  refine Ends.of_le (Ends.le (.fuel fun fuel => ?_) fun _ => Nat.sub_le n 1) hsharp
  exact (ends_valueItems hg hle fuel _).bindPure

theorem ends_link (hn : n ≤ d) : Ends n (fun _ => n) (Parser.link g) := by
  have hpath (name : String) := ends_path hg name (Nat.le_succ_of_le hn)
  refine (hpath _).bind fun _ => ends_separator.bind fun _ => (hpath _).bind fun _ => ?_
  exact (ends_optionalValue hg hn).bindPure

theorem ends_unlink (hn : n ≤ d) : Ends n (fun _ => n) (Parser.unlink g) := by
  have hpath (name : String) := ends_path hg name (Nat.le_succ_of_le hn)
  exact (hpath _).bind fun _ => Ends.skipSpaces.bind fun _ => .ifExact (hpath _).bindPure.less (.pure _)

theorem ends_draw (hn : n ≤ d) : Ends n (fun _ => n) (Parser.draw g) :=
  (ends_options _ _).bind fun _ => (ends_optionalPath hg hn).bind fun _ =>
    (ends_optionalExpression hg _ hn).bindPure

theorem ends_ui (hn : n ≤ d) : Ends n (fun _ => n) (Parser.ui g) := by
  have hequals {p : Parser Node} (hp : Ends n (fun _ => n) p) :
      Ends n (fun _ => n) (do Parser.skipSpaces; Parser.expect "="; p) :=
    Ends.skipSpaces.bind fun _ => Ends.close.bind fun _ => hp
  refine (Ends.anyKeyword (by decide)).bind fun found => ?_
  split
  · exact .fail _
  · exact .pure _
  · exact hequals (Ends.traced (hg.expression hn)).bindPure
  · exact hequals (ends_path hg _ (by omega)).bindPure
  · exact hequals (Ends.traced (hg.expression hn)).bindPure

theorem ends_camera (hn : n ≤ d) : Ends n (fun _ => n) (Parser.camera g) := by
  have htraced (name : String) : Ends n (fun _ => n) (Parser.traced name g.expression) :=
    .traced (hg.expression hn)
  refine (Ends.anyKeyword (by decide)).bind fun found => ?_
  split
  · exact .fail _
  · exact Ends.skipSpaces.bind fun _ => Ends.close.bind fun _ => (htraced _).bindPure
  · refine Ends.skipSpaces.bind fun _ => Ends.close.bind fun _ => (htraced _).bind fun _ => ?_
    exact ends_separator.bind fun _ => (htraced _).bindPure

omit hg in
theorem ends_manual : Ends n (fun _ => n) Parser.manual := by
  refine Ends.commandEnds.bind fun _ => .ite (.pure _) (.cursor fun _ _ => ?_)
  exact (Ends.skipWhile _).bind fun _ => .cursor fun _ _ => .pure _

theorem ends_afterKeyword (keyword : Keyword) (hn : n ≤ d) :
    Ends n (fun _ => n) (Parser.afterKeyword g keyword) := by
  have hpath (name : String) := ends_path hg name (Nat.le_succ_of_le hn)
  have hstring (name : String) := ends_string hg name hn
  have hvalue := ends_value hg hn
  have hbody := ends_body hg hn
  have htraced (name : String) : Ends n (fun _ => n) (Parser.traced name g.expression) :=
    .traced (hg.expression hn)
  cases keyword with
  | list category => exact ends_listing hg category hn
  | get => exact (hpath _).bindPure
  | getUnit => exact (hpath _).bind fun _ => (htraced _).bindPure
  | getSlot => exact (hpath _).bind fun _ => hvalue.bindPure
  | undraw | focus | changeDir => exact (ends_optionalPath hg hn).bindPure
  | draw => exact ends_draw hg hn
  | drawable =>
    refine (hpath _).bind fun _ => Ends.commandEnds.bind fun _ => .ite (.pure _) ?_
    exact (Ends.traced Ends.complexWord).bindPure
  | unset => exact ends_unset hg hn
  | env => exact ends_env hg hn
  | create => exact ends_create hg hn
  | delete => exact ends_delete hg hn
  | select => exact ends_select hg hn
  | assign => exact ends_variableName.bind fun _ => Ends.close.bind fun _ => hvalue.bindPure
  | runScript | checkScript | loadTemplate | print => exact (hstring _).bindPure
  | length => exact ends_variableName.bindPure
  | link => exact ends_link hg hn
  | unlink => exact ends_unlink hg hn
  | copy => exact (hpath _).bind fun _ => (hstring _).bindPure
  | printf => exact ends_printf hg hn
  | manual => exact ends_manual
  | tree => exact (ends_optionalPath hg hn).bind fun _ => (ends_optionalExpression hg _ hn).bindPure
  | ui => exact ends_ui hg hn
  | camera => exact ends_camera hg hn
  | whileLoop => exact (htraced _).bind fun _ => hbody.bindPure
  | forLoop => exact ends_forLoop hg hn
  | conditional => exact .fuel fun fuel => ends_conditional hg hn fuel
  | defineAlias => exact (Ends.traced Ends.simpleWord).bind fun _ => .ite (.fail _) hbody.bindPure
  | connect => exact Ends.commandEnds.bind fun _ => .ite (.pure _) (hstring _).bindPure
  | printSelection | clearScreen | showPeers | printDir | exit | disconnect => exact .pure _

theorem ends_statement (hn : n ≤ d + 1) : Ends n (fun _ => n) (Parser.statement g) := by
  refine .traced (Ends.commandEnds.bind fun _ => .ite (.pure _) (.cursor fun start hstart => ?_))
  refine (Ends.keyword? (by decide)).bind fun found => ?_
  cases found with
  | some found =>
    have hnested : n - 1 ≤ d := by omega
    refine (Ends.look _).bind fun _ => .ite (.failAt _ _) ?_
    exact (Ends.traced (ends_afterKeyword hg _ hnested)).le fun _ => Nat.sub_le n 1
  | none =>
    refine Ends.simpleWord.bind fun name => ?_
    extract_lets afterName
    have hname : ∀ ends, Ends n (fun _ => n) (afterName ends) := fun ends =>
      .ite (.pure _) ((Ends.goto hstart).bind fun _ => ends_update hg hn)
    exact .ite ((Ends.pure _).bind hname) (Ends.commandEnds.bind hname)

theorem ends_statementItems (hn : n ≤ d + 1) (fuel : Nat) (nodes : List Node) :
    Ends (min n fuel) (fun _ => min n fuel) (Parser.statementItems g fuel nodes) := by
  refine .loop _ (fun n fuel nodes hn hround => ?_) hn fuel nodes
  exact (ends_statement hg hn).bind fun _ => Ends.skipSpaces.bind fun _ => .ifExact (hround _) (.pure _)

theorem ends_statements (hn : n ≤ d + 1) : Ends n (fun _ => n) (Parser.statements g) :=
  .fuel fun fuel => (ends_statementItems hg hn fuel _).bindPure

end Rules

theorem ends_ofDepth (depth : Nat) : (Grammar.ofDepth depth).Ends depth := by
  induction depth with
  | zero =>
    have hzero {n : Nat} {p : Parser Node} (hn : n ≤ 0) : Ends n (fun _ => n) p := by
      obtain rfl := Nat.le_zero.1 hn
      exact .zero
    exact ⟨hzero, fun _ => hzero, hzero, hzero, hzero⟩
  | succ depth ih =>
    exact ⟨ends_expression ih, ends_binary ih, ends_unary ih, ends_statement ih, ends_statements ih⟩

/-- Every line is read to an answer: the bound on nesting is never what stops the reading. -/
theorem lineStatements_ne_exhausted (line : String) : lineStatements line ≠ .exhausted := by
  refine ((ends_ofDepth _).statements (Nat.le_refl _) _ _ ?_).1
  rw [Cursor.start, depthFor, String.length_toList]
  exact Nat.lt_add_of_pos_right (by decide)

end TwinShell.Language
