import TwinShell.Proofs.Language.Places

/-!
# How much of a line is read

A line is accepted when its statements are read up to a place where a command may end. That is the end of the line or a closing bracket: a bracket that was never opened ends the reading, and whatever stands behind it is dropped without a word. A line without closing brackets is read to its end or refused.
-/

namespace TwinShell.Language

variable {line : List Char} {g : Grammar}

/-! ### Expressions and text -/

section Rules

variable (hg : g.StaysIn line)
include hg

theorem staysIn_textPieces (mode : TextMode) (fuel : Nat) (pieces : Parser.TextPieces) :
    StaysIn line (Parser.textPieces g mode fuel pieces) := by
  induction fuel generalizing pieces with
  | zero => exact .exhausted
  | succ fuel ih =>
    refine .bind (.reading fun _ hc => hc.textToken _) fun token => ?_
    split
    · exact ih _
    · exact ih _
    · exact hg.expression.bind fun _ => (StaysIn.expect _).bind fun _ => ih _
    · exact .pure _

theorem staysIn_textNode (mode : TextMode) (trim : Bool) : StaysIn line (Parser.textNode g mode trim) :=
  .bind (.look _) fun _ => (staysIn_textPieces hg mode _ _).bind fun _ => .pure _

theorem staysIn_path (name : String) : StaysIn line (Parser.path g name) := by
  refine .traced (StaysIn.skipSpaces.bind fun _ => (staysIn_textNode hg _ _).bind fun _ => ?_)
  exact StaysIn.skipSpaces.bind fun _ => .pure _

theorem staysIn_pathItems (fuel : Nat) (paths : List Node) :
    StaysIn line (Parser.pathItems g fuel paths) := by
  induction fuel generalizing paths with
  | zero => exact .exhausted
  | succ fuel ih =>
    refine StaysIn.skipSpaces.bind fun _ => (staysIn_path hg _).bind fun item => ?_
    refine StaysIn.skipSpaces.bind fun _ => (StaysIn.tryExact _).bind fun _ => .ite (.pure _) ?_
    exact (StaysIn.tryExact _).bind fun _ => .ite (ih _) (.fail _)

theorem staysIn_pathGroup : StaysIn line (Parser.pathGroup g) := by
  refine .traced (StaysIn.skipSpaces.bind fun _ => (StaysIn.expect _).bind fun _ => ?_)
  refine .bind (.look _) fun _ => (staysIn_pathItems hg _ _).bind fun _ => ?_
  exact StaysIn.skipSpaces.bind fun _ => .pure _

theorem staysIn_string (name : String) : StaysIn line (Parser.string g name) := by
  refine .traced (StaysIn.skipSpaces.bind fun _ => .bind (.look _) fun _ => .ite hg.expression ?_)
  exact (staysIn_textNode hg _ _).bind fun _ => StaysIn.skipSpaces.bind fun _ => .pure _

theorem staysIn_value : StaysIn line (Parser.value g) := by
  refine .traced (StaysIn.skipSpaces.bind fun _ => (StaysIn.tryExact _).bind fun _ => ?_)
  refine .ite hg.expression (.bind (.look _) fun _ => .ite hg.expression (.bind (.look _) fun _ => .ite ?_ ?_))
  · refine .bind (.move fun _ hc => hc.skip 2) fun _ => hg.statements.bind fun _ => ?_
    exact (StaysIn.expect _).bind fun _ => .pure _
  · refine .cursor fun start hstart => (StaysIn.attempt hg.expression).bind fun node => ?_
    split
    · refine StaysIn.valueEnds.bind fun _ => .ite (.cursor fun _ _ => .pure _) ?_
      exact (StaysIn.goto hstart).bind fun _ => staysIn_string hg _
    · exact staysIn_string hg _

theorem staysIn_expressionItems (close : String) (fuel : Nat) (items : List Node) :
    StaysIn line (Parser.expressionItems g close fuel items) := by
  induction fuel generalizing items with
  | zero => exact .exhausted
  | succ fuel ih =>
    refine hg.expression.bind fun _ => (StaysIn.tryExact _).bind fun _ => .ite (.pure _) ?_
    exact (StaysIn.tryExact _).bind fun _ => .ite (ih _) (.fail _)

theorem staysIn_expressionList (close : String) : StaysIn line (Parser.expressionList g close) := by
  refine .traced (StaysIn.skipSpaces.bind fun _ => (StaysIn.tryExact _).bind fun _ => ?_)
  exact .ite (.pure _) (.bind (.look _) fun _ => staysIn_expressionItems hg close _ _)

theorem staysIn_arrayItems (fuel : Nat) (items : List Node) :
    StaysIn line (Parser.arrayItems g fuel items) := by
  induction fuel generalizing items with
  | zero => exact .exhausted
  | succ fuel ih =>
    refine (StaysIn.traced hg.expression).bind fun _ => StaysIn.token.bind fun next => ?_
    split
    · exact .pure _
    · exact ih _
    · exact .failAt _ _

theorem staysIn_array : StaysIn line (Parser.array g) := by
  refine .cursor fun start hstart => StaysIn.token.bind fun token => ?_
  split
  · exact .pure _
  · refine (StaysIn.goto hstart).bind fun _ => .bind (.look _) fun _ => ?_
    exact (staysIn_arrayItems hg _ _).bind fun _ => .pure _

theorem staysIn_afterReference (name : String) : StaysIn line (Parser.afterReference g name) := by
  refine .cursor fun start hstart => StaysIn.token.bind fun token => ?_
  split
  · refine (StaysIn.traced hg.expression).bind fun _ => StaysIn.token.bind fun close => ?_
    split
    · exact .pure _
    · exact .fail _
  · exact (StaysIn.goto hstart).bind fun _ => .pure _

theorem staysIn_primary : StaysIn line (Parser.primary g) := by
  refine StaysIn.token.bind fun token => ?_
  cases token.kind with
  | bool | int | float => exact .pure _
  | quote => exact (staysIn_textNode hg _ _).bind fun _ => (StaysIn.expect _).bind fun _ => .pure _
  | reference name => exact staysIn_afterReference hg name
  | leftEval => exact hg.expression.bind fun _ => (StaysIn.expect _).bind fun _ => .pure _
  | leftParen =>
    refine hg.expression.bind fun _ => StaysIn.token.bind fun close => ?_
    split
    · exact .pure _
    · exact .failAt _ _
  | leftBracket => exact staysIn_array hg
  | format =>
    refine StaysIn.skipSpaces.bind fun _ => (StaysIn.expect _).bind fun _ => ?_
    refine (staysIn_expressionList hg _).bind fun items => ?_
    split
    · exact .pure _
    · exact .fail _
  | _ => exact .failAt _ _

theorem staysIn_unary : StaysIn line (Parser.unary g) := by
  refine .cursor fun start hstart => StaysIn.token.bind fun token => ?_
  split
  · exact hg.unary
  · exact hg.unary.bind fun _ => .pure _
  · exact hg.unary.bind fun _ => .pure _
  · exact (StaysIn.goto hstart).bind fun _ => staysIn_primary hg

theorem staysIn_binaryTail (level fuel : Nat) (left : Node) :
    StaysIn line (Parser.binaryTail g level fuel left) := by
  induction fuel generalizing left with
  | zero => exact .exhausted
  | succ fuel ih =>
    refine .cursor fun start hstart => StaysIn.token.bind fun token => ?_
    have hback : StaysIn line (do Parser.goto start; return left) :=
      (StaysIn.goto hstart).bind fun _ => .pure _
    split
    · exact .ite ((hg.binary _).bind fun _ => ih _) hback
    · exact hback

theorem staysIn_binary (level : Nat) : StaysIn line (Parser.binary g level) :=
  (staysIn_unary hg).bind fun _ => .bind (.look _) fun _ => staysIn_binaryTail hg level _ _

theorem staysIn_expression : StaysIn line (Parser.expression g) :=
  (staysIn_binary hg 1).bind fun _ => StaysIn.skipSpaces.bind fun _ => .pure _

/-! ### Parts of commands -/

omit hg in
theorem staysIn_optionWords (fuel : Nat) (words : List String) :
    StaysIn line (Parser.optionWords fuel words) := by
  induction fuel generalizing words with
  | zero => exact .exhausted
  | succ fuel ih =>
    exact StaysIn.complexWord.bind fun _ => (StaysIn.tryExact _).bind fun _ => .ite (ih _) (.pure _)

omit hg in
theorem staysIn_optionValue : StaysIn line Parser.optionValue := by
  refine .traced (StaysIn.skipSpaces.bind fun _ => (StaysIn.tryExact _).bind fun _ => .ite ?_ ?_)
  · refine .cursor fun _ _ => .bind (.move fun _ hc => hc.skipWhile _) fun _ => .cursor fun _ _ => ?_
    exact (StaysIn.expect _).bind fun _ => StaysIn.skipSpaces.bind fun _ => .pure _
  · refine .bind (.look _) fun _ => (staysIn_optionWords _ _).bind fun _ => ?_
    exact .ite (.fail _) (.pure _)

omit hg in
theorem staysIn_optionItems (withValue flags : List String) (fuel : Nat) (options : Dict String) :
    StaysIn line (Parser.optionItems withValue flags fuel options) := by
  induction fuel generalizing options with
  | zero => exact .exhausted
  | succ fuel ih =>
    refine StaysIn.skipSpaces.bind fun _ => .cursor fun start _ => .ite ?_ (.pure _)
    refine .bind (.move fun _ hc => hc.skip 1) fun _ => StaysIn.simpleWord.bind fun name => ?_
    exact .ite (ih _) (.ite (staysIn_optionValue.bind fun _ => ih _) (.failAt _ _))

omit hg in
theorem staysIn_options (withValue flags : List String) : StaysIn line (Parser.options withValue flags) :=
  .traced (.bind (.look _) fun _ => staysIn_optionItems _ _ _ _)

omit hg in
theorem staysIn_separator : StaysIn line Parser.separator :=
  StaysIn.skipSpaces.bind fun _ => .expect _

theorem staysIn_body : StaysIn line (Parser.body g) := by
  refine .traced (StaysIn.skipSpaces.bind fun _ => (StaysIn.expect _).bind fun _ => ?_)
  refine hg.statements.bind fun _ => StaysIn.skipSpaces.bind fun _ => ?_
  exact (StaysIn.expect _).bind fun _ => .pure _

theorem staysIn_optionalPath : StaysIn line (Parser.optionalPath g) :=
  StaysIn.commandEnds.bind fun _ => .ite (.pure _) ((staysIn_path hg _).bind fun _ => .pure _)

theorem staysIn_optionalExpression (name : String) : StaysIn line (Parser.optionalExpression g name) :=
  StaysIn.commandEnds.bind fun _ => .ite (.pure _) ((StaysIn.traced hg.expression).bind fun _ => .pure _)

theorem staysIn_optionalValue : StaysIn line (Parser.optionalValue g) := by
  refine StaysIn.skipSpaces.bind fun _ => (StaysIn.tryExact _).bind fun _ => ?_
  exact .ite ((staysIn_value hg).bind fun _ => .pure _) (.pure _)

theorem staysIn_listFilters (fuel : Nat) (filters : List (String × Node)) :
    StaysIn line (Parser.listFilters g fuel filters) := by
  induction fuel generalizing filters with
  | zero => exact .exhausted
  | succ fuel ih =>
    refine StaysIn.commandEnds.bind fun _ => .ite (.pure _) ?_
    refine (StaysIn.traced StaysIn.complexWord).bind fun _ => .ite (.fail _) ?_
    exact (StaysIn.expect _).bind fun _ => (staysIn_textNode hg _ _).bind fun _ => ih _

/-! ### Commands -/

theorem staysIn_listing (category : Option Kind) : StaysIn line (Parser.listing g category) := by
  refine (staysIn_options _ _).bind fun options => .cursor fun start hstart => ?_
  refine StaysIn.simpleWord.bind fun word => .bind (.look _) fun filtersOnly => ?_
  refine (StaysIn.goto hstart).bind fun _ => ?_
  extract_lets afterPath afterHere
  have hpath : ∀ path, StaysIn line (afterPath path) := fun path =>
    .bind (.look _) fun _ => (staysIn_listFilters hg _ _).bind fun _ => .pure _
  have hhere : ∀ here, StaysIn line (afterHere here) := fun here =>
    .ite (.bind (.pure _) hpath) ((staysIn_path hg _).bind hpath)
  exact .ite (.bind (.pure _) hhere) (StaysIn.commandEnds.bind hhere)

omit hg in
theorem staysIn_variableName : StaysIn line Parser.variableName :=
  (StaysIn.traced StaysIn.simpleWord).bind fun _ => .ite (.fail _) (.pure _)

theorem staysIn_unset : StaysIn line (Parser.unset g) := by
  refine (staysIn_options _ _).bind fun options => ?_
  split
  · exact .pure _
  · exact .pure _
  · refine (staysIn_path hg _).bind fun _ => (StaysIn.expect _).bind fun _ => ?_
    refine (StaysIn.traced StaysIn.complexWord).bind fun _ => .ite (.fail _) ?_
    refine (StaysIn.tryExact _).bind fun _ => .ite ?_ (.pure _)
    exact (StaysIn.traced hg.expression).bind fun _ => (StaysIn.expect _).bind fun _ => .pure _

theorem staysIn_env : StaysIn line (Parser.env g) := by
  refine StaysIn.commandEnds.bind fun _ => .ite (.pure _) ?_
  refine (StaysIn.traced StaysIn.simpleWord).bind fun _ => (StaysIn.expect _).bind fun _ => ?_
  exact (staysIn_value hg).bind fun _ => .pure _

theorem staysIn_printfItems (fuel : Nat) (items : List Node) :
    StaysIn line (Parser.printfItems g fuel items) := by
  induction fuel generalizing items with
  | zero => exact .exhausted
  | succ fuel ih =>
    exact hg.expression.bind fun _ => (StaysIn.tryExact _).bind fun _ => .ite (ih _) (.pure _)

theorem staysIn_printf : StaysIn line (Parser.printf g) := by
  refine .bind (.look _) fun _ => (staysIn_printfItems hg _ _).bind fun items => ?_
  split
  · exact .pure _
  · exact .fail _

theorem staysIn_conditional (fuel : Nat) : StaysIn line (Parser.conditional g fuel) := by
  induction fuel with
  | zero => exact .exhausted
  | succ fuel ih =>
    refine (StaysIn.traced hg.expression).bind fun _ => (staysIn_body hg).bind fun _ => ?_
    refine StaysIn.skipSpaces.bind fun _ => (StaysIn.tryExact _).bind fun _ => .ite ?_ ?_
    · exact (StaysIn.traced ih).bind fun _ => .pure _
    · refine (StaysIn.tryExact _).bind fun _ => .ite ?_ (.pure _)
      exact (staysIn_body hg).bind fun _ => .pure _

theorem staysIn_countedLoop : StaysIn line (Parser.countedLoop g) := by
  refine hg.statement.bind fun _ => StaysIn.skipSpaces.bind fun _ => (StaysIn.expect _).bind fun _ => ?_
  refine (StaysIn.traced hg.expression).bind fun _ => (StaysIn.expect _).bind fun _ => ?_
  refine hg.statement.bind fun _ => StaysIn.skipSpaces.bind fun _ => (StaysIn.expect _).bind fun _ => ?_
  exact (staysIn_body hg).bind fun _ => .pure _

theorem staysIn_forLoop : StaysIn line (Parser.forLoop g) := by
  refine StaysIn.skipSpaces.bind fun _ => (StaysIn.tryExact _).bind fun _ => ?_
  refine .ite (staysIn_countedLoop hg) ((StaysIn.traced StaysIn.simpleWord).bind fun _ => ?_)
  refine .ite (.fail _) ((StaysIn.tryExact _).bind fun _ => .ite (.bind (.look _) fun _ => ?_) (.fail _))
  refine .ite (.fail _) (hg.expression.bind fun _ => (StaysIn.tryExact _).bind fun _ => .ite ?_ ?_)
  · exact (StaysIn.traced hg.expression).bind fun _ => (staysIn_body hg).bind fun _ => .pure _
  · exact (staysIn_body hg).bind fun _ => .pure _

theorem staysIn_select : StaysIn line (Parser.select g) := by
  refine StaysIn.skipSpaces.bind fun _ => .bind (.look _) fun _ => .ite ?_ ?_
  · exact (staysIn_pathGroup hg).bind fun _ => .pure _
  · refine (staysIn_optionalPath hg).bind fun path => ?_
    split <;> exact .pure _

theorem staysIn_delete : StaysIn line (Parser.delete g) := by
  refine .cursor fun start hstart => (StaysIn.tryExact _).bind fun _ => .bind (.look _) fun _ => ?_
  refine .ite (.pure _) ((StaysIn.goto hstart).bind fun _ => ?_)
  exact (staysIn_path hg _).bind fun _ => .pure _

theorem staysIn_threeValues : StaysIn line (Parser.threeValues g) := by
  refine staysIn_separator.bind fun _ => (staysIn_value hg).bind fun _ => ?_
  refine staysIn_separator.bind fun _ => (staysIn_value hg).bind fun _ => ?_
  exact staysIn_separator.bind fun _ => (staysIn_value hg).bind fun _ => .pure _

theorem staysIn_creation (creatable : Creatable) : StaysIn line (Parser.creation g creatable) := by
  have hexpect : StaysIn line (Parser.expect ":") := .expect ":"
  have hpath := staysIn_path hg ""
  have hvalue := staysIn_value hg
  cases creatable with
  | orphan =>
    refine StaysIn.skipSpaces.bind fun _ => (StaysIn.keyword? _).bind fun found => ?_
    split
    · exact .fail _
    · refine hexpect.bind fun _ => hpath.bind fun _ => ?_
      exact staysIn_separator.bind fun _ => hvalue.bind fun _ => .pure _
  | domain =>
    refine hexpect.bind fun _ => hpath.bind fun _ => ?_
    exact staysIn_separator.bind fun _ => hvalue.bind fun _ => .pure _
  | site => exact hexpect.bind fun _ => hpath.bind fun _ => .pure _
  | building | rack =>
    exact hexpect.bind fun _ => hpath.bind fun _ => (staysIn_threeValues hg).bind fun _ => .pure _
  | room =>
    refine hexpect.bind fun _ => hpath.bind fun _ => (staysIn_threeValues hg).bind fun _ => ?_
    refine (staysIn_optionalValue hg).bind fun axis => ?_
    split
    · exact .pure _
    · exact (staysIn_optionalValue hg).bind fun _ => .pure _
  | device =>
    refine hexpect.bind fun _ => hpath.bind fun _ => staysIn_separator.bind fun _ => ?_
    refine hvalue.bind fun _ => staysIn_separator.bind fun _ => hvalue.bind fun _ => ?_
    exact (staysIn_optionalValue hg).bind fun _ => .pure _
  | corridor =>
    refine hexpect.bind fun _ => hpath.bind fun _ => staysIn_separator.bind fun _ => ?_
    refine .cursor fun start _ => (staysIn_pathGroup hg).bind fun racks => ?_
    split
    · exact staysIn_separator.bind fun _ => hvalue.bind fun _ => .pure _
    · exact .failAt _ _
  | group =>
    refine hexpect.bind fun _ => hpath.bind fun _ => staysIn_separator.bind fun _ => ?_
    exact (staysIn_pathGroup hg).bind fun _ => .pure _
  | tag =>
    refine hexpect.bind fun _ => (staysIn_string hg _).bind fun _ => ?_
    exact staysIn_separator.bind fun _ => hvalue.bind fun _ => .pure _

theorem staysIn_create : StaysIn line (Parser.create g) := by
  refine (StaysIn.keyword? _).bind fun found => ?_
  split
  · exact .fail _
  · exact (StaysIn.traced (staysIn_creation hg _)).bind fun _ => .pure _

theorem staysIn_valueItems (fuel : Nat) (values : List Node) :
    StaysIn line (Parser.valueItems g fuel values) := by
  induction fuel generalizing values with
  | zero => exact .exhausted
  | succ fuel ih =>
    refine (staysIn_value hg).bind fun _ => StaysIn.skipSpaces.bind fun _ => ?_
    exact (StaysIn.tryExact _).bind fun _ => .ite (ih _) (.pure _)

theorem staysIn_update : StaysIn line (Parser.update g) := by
  refine .traced ((staysIn_path hg _).bind fun _ => (StaysIn.tryExact _).bind fun _ => .ite ?_ (.fail _))
  refine (StaysIn.traced StaysIn.complexWord).bind fun _ => .ite (.fail _) ?_
  refine (StaysIn.expect _).bind fun _ => StaysIn.skipSpaces.bind fun _ => ?_
  refine (StaysIn.tryExact _).bind fun _ => .bind (.look _) fun _ => ?_
  exact (staysIn_valueItems hg _ _).bind fun _ => .pure _

theorem staysIn_link : StaysIn line (Parser.link g) := by
  refine (staysIn_path hg _).bind fun _ => staysIn_separator.bind fun _ => ?_
  exact (staysIn_path hg _).bind fun _ => (staysIn_optionalValue hg).bind fun _ => .pure _

theorem staysIn_unlink : StaysIn line (Parser.unlink g) := by
  refine (staysIn_path hg _).bind fun _ => StaysIn.skipSpaces.bind fun _ => ?_
  exact (StaysIn.tryExact _).bind fun _ => .ite ((staysIn_path hg _).bind fun _ => .pure _) (.pure _)

theorem staysIn_draw : StaysIn line (Parser.draw g) := by
  refine (staysIn_options _ _).bind fun _ => (staysIn_optionalPath hg).bind fun _ => ?_
  exact (staysIn_optionalExpression hg _).bind fun _ => .pure _

theorem staysIn_ui : StaysIn line (Parser.ui g) := by
  have hequals {α : Type} {p : Parser α} (hp : StaysIn line p) :
      StaysIn line (do Parser.skipSpaces; Parser.expect "="; p) :=
    StaysIn.skipSpaces.bind fun _ => (StaysIn.expect _).bind fun _ => hp
  refine (StaysIn.keyword? _).bind fun found => ?_
  split
  · exact .fail _
  · exact .pure _
  · exact hequals ((StaysIn.traced hg.expression).bind fun _ => .pure _)
  · exact hequals ((staysIn_path hg _).bind fun _ => .pure _)
  · exact hequals ((StaysIn.traced hg.expression).bind fun _ => .pure _)

theorem staysIn_camera : StaysIn line (Parser.camera g) := by
  refine (StaysIn.keyword? _).bind fun found => ?_
  split
  · exact .fail _
  · refine StaysIn.skipSpaces.bind fun _ => (StaysIn.expect _).bind fun _ => ?_
    exact (StaysIn.traced hg.expression).bind fun _ => .pure _
  · refine StaysIn.skipSpaces.bind fun _ => (StaysIn.expect _).bind fun _ => ?_
    refine (StaysIn.traced hg.expression).bind fun _ => staysIn_separator.bind fun _ => ?_
    exact (StaysIn.traced hg.expression).bind fun _ => .pure _

omit hg in
theorem staysIn_manual : StaysIn line Parser.manual := by
  refine StaysIn.commandEnds.bind fun _ => .ite (.pure _) (.cursor fun _ _ => ?_)
  exact .bind (.move fun _ hc => hc.skipWhile _) fun _ => .cursor fun _ _ => .pure _

theorem staysIn_afterKeyword (keyword : Keyword) : StaysIn line (Parser.afterKeyword g keyword) := by
  have hpath (name : String) := staysIn_path hg name
  have hstring (name : String) := staysIn_string hg name
  have htraced (name : String) : StaysIn line (Parser.traced name g.expression) := .traced hg.expression
  cases keyword with
  | list category => exact staysIn_listing hg category
  | get => exact (hpath _).bind fun _ => .pure _
  | getUnit => exact (hpath _).bind fun _ => (htraced _).bind fun _ => .pure _
  | getSlot => exact (hpath _).bind fun _ => (staysIn_value hg).bind fun _ => .pure _
  | undraw | focus | changeDir => exact (staysIn_optionalPath hg).bind fun _ => .pure _
  | draw => exact staysIn_draw hg
  | drawable =>
    refine (hpath _).bind fun _ => StaysIn.commandEnds.bind fun _ => .ite (.pure _) ?_
    exact (StaysIn.traced StaysIn.complexWord).bind fun _ => .pure _
  | unset => exact staysIn_unset hg
  | env => exact staysIn_env hg
  | create => exact staysIn_create hg
  | delete => exact staysIn_delete hg
  | select => exact staysIn_select hg
  | assign =>
    refine staysIn_variableName.bind fun _ => (StaysIn.expect _).bind fun _ => ?_
    exact (staysIn_value hg).bind fun _ => .pure _
  | runScript | checkScript | loadTemplate | print => exact (hstring _).bind fun _ => .pure _
  | length => exact staysIn_variableName.bind fun _ => .pure _
  | link => exact staysIn_link hg
  | unlink => exact staysIn_unlink hg
  | copy => exact (hpath _).bind fun _ => (hstring _).bind fun _ => .pure _
  | printf => exact staysIn_printf hg
  | manual => exact staysIn_manual
  | tree =>
    exact (staysIn_optionalPath hg).bind fun _ => (staysIn_optionalExpression hg _).bind fun _ => .pure _
  | ui => exact staysIn_ui hg
  | camera => exact staysIn_camera hg
  | whileLoop => exact (htraced _).bind fun _ => (staysIn_body hg).bind fun _ => .pure _
  | forLoop => exact staysIn_forLoop hg
  | conditional => exact .bind (.look _) fun _ => staysIn_conditional hg _
  | defineAlias =>
    refine (StaysIn.traced StaysIn.simpleWord).bind fun _ => .ite (.fail _) ?_
    exact (staysIn_body hg).bind fun _ => .pure _
  | connect =>
    exact StaysIn.commandEnds.bind fun _ => .ite (.pure _) ((hstring _).bind fun _ => .pure _)
  | printSelection | clearScreen | showPeers | printDir | exit | disconnect => exact .pure _

theorem staysIn_statement : StaysIn line (Parser.statement g) := by
  refine .traced (StaysIn.commandEnds.bind fun _ => .ite (.pure _) ?_)
  refine .cursor fun start hstart => (StaysIn.keyword? _).bind fun found => ?_
  split
  · refine .bind (.look _) fun _ => .ite (.failAt _ _) ?_
    exact .traced (staysIn_afterKeyword hg _)
  · refine StaysIn.simpleWord.bind fun name => ?_
    extract_lets afterName
    have hname : ∀ ends, StaysIn line (afterName ends) := fun ends =>
      .ite (.pure _) ((StaysIn.goto hstart).bind fun _ => staysIn_update hg)
    exact .ite (.bind (.pure _) hname) (StaysIn.commandEnds.bind hname)

theorem staysIn_statementItems (fuel : Nat) (nodes : List Node) :
    StaysIn line (Parser.statementItems g fuel nodes) := by
  induction fuel generalizing nodes with
  | zero => exact .exhausted
  | succ fuel ih =>
    refine (staysIn_statement hg).bind fun node => StaysIn.skipSpaces.bind fun _ => ?_
    exact (StaysIn.tryExact _).bind fun _ => .ite (ih _) (.pure _)

theorem staysIn_statements : StaysIn line (Parser.statements g) :=
  .bind (.look _) fun _ => (staysIn_statementItems hg _ _).bind fun _ => .pure _

end Rules

theorem staysIn_ofDepth (depth : Nat) : (Grammar.ofDepth depth).StaysIn line := by
  induction depth with
  | zero => exact ⟨.exhausted, fun _ => .exhausted, .exhausted, .exhausted, .exhausted⟩
  | succ depth ih =>
    exact ⟨staysIn_expression ih, staysIn_binary ih, staysIn_unary ih, staysIn_statement ih,
      staysIn_statements ih⟩

/-! ### Where the statements of a line end -/

theorem Cursor.skipSpaces_skipSpaces (c : Cursor) : c.skipSpaces.skipSpaces = c.skipSpaces := by
  refine skipWhile_of_headAvoids _ ?_
  have hhead := List.head?_dropWhile_not Text.isSpaceOrTab c.rest
  cases hrest : c.rest.dropWhile Text.isSpaceOrTab with
  | nil => rfl
  | cons first rest => simpa [headAvoids, hrest] using hhead

/-- Statements are read as long as there are semicolons, so behind the last one there is none. -/
theorem statementItems_ends {fuel : Nat} {nodes result : List Node} {ctx : Context} {c c' : Cursor}
    (h : Parser.statementItems g fuel nodes ctx c = .ok result c') :
    c'.skipSpaces = c' ∧ c'.startsWith ";" = false := by
  induction fuel generalizing nodes c with
  | zero => cases h
  | succ fuel ih =>
    simp only [Parser.statementItems, Parser.bind_apply, Parser.skipSpaces, Parser.move,
      Parser.tryExact] at h
    split at h
    · rename_i node c₁ hstatement
      cases hmore : c₁.skipSpaces.startsWith ";" with
      | true =>
        simp only [hmore, if_true] at h
        exact ih h
      | false =>
        simp only [hmore, Bool.false_eq_true, if_false] at h
        cases h
        exact ⟨c₁.skipSpaces_skipSpaces, hmore⟩
    · cases h
    · cases h

theorem statements_ends {ctx : Context} {node : Node} {c c' : Cursor}
    (h : Parser.statements g ctx c = .ok node c') : c'.skipSpaces = c' ∧ c'.startsWith ";" = false := by
  simp only [Parser.statements, Parser.bind_apply, Parser.look] at h
  split at h
  · rename_i nodes c₁ hitems
    cases h
    exact statementItems_ends hitems
  · cases h
  · cases h

/-- What reading the statements of a line gives, and the place where it ends. -/
def lineStatements (line : String) : Reply Node :=
  (Grammar.ofDepth (depthFor (stripComment line))).statements ⟨stripComment line, []⟩
    (.start (stripComment line).toList)

/-- The statements of a line are read as `node`: `read` is what was read, the blanks behind the statements included, and `rest` is what is left of the line. -/
structure ReadsUpTo (line : String) (node : Node) (read rest : List Char) : Prop where
  split : (stripComment line).toList = read ++ rest
  stops : ∃ c, lineStatements line = .ok node c ∧ c.skipSpaces = ⟨read.length, rest⟩

theorem parse_eq_ok_iff {line : String} {node : Node} : parse line = .ok node ↔
    ∃ c, lineStatements line = .ok node c ∧
      (c.skipSpaces.atEnd || c.skipSpaces.nextIs Parser.isCommandStop) = true := by
  simp only [parse, parseLine, Parser.runOn, Parser.bind_apply, ← lineStatements.eq_1,
    Parser.commandEnds, Parser.skipSpaces, Parser.move, Parser.look]
  cases lineStatements line with
  | error e => simp
  | exhausted => simp
  | ok a c =>
    cases hends : (c.skipSpaces.atEnd || c.skipSpaces.nextIs Parser.isCommandStop) with
    | true =>
      simp only [hends, if_true]
      constructor
      · rintro ⟨⟩
        exact ⟨c, rfl, hends⟩
      · rintro ⟨_, ⟨⟩, -⟩
        rfl
    | false =>
      simp only [hends]
      constructor
      · rintro ⟨⟩
      · rintro ⟨_, ⟨⟩, hstop⟩
        exact absurd (hends.symm.trans hstop) Bool.false_ne_true

/-- The brackets that end a command. -/
def closers : List Char := [')', '\x7d']

theorem Cursor.closes_of_commandEnds {c : Cursor} (hsemicolon : c.startsWith ";" = false)
    (hends : (c.atEnd || c.nextIs Parser.isCommandStop) = true) :
    c.rest = [] ∨ ∃ closer ∈ closers, ∃ more, c.rest = closer :: more := by
  obtain ⟨pos, rest⟩ := c
  cases rest with
  | nil => exact .inl rfl
  | cons first more =>
    have hstop : (first = ';' ∨ first = '\x7d') ∨ first = ')' := by
      simpa [atEnd, nextIs, peek?, Parser.isCommandStop] using hends
    have hne : first ≠ ';' := by
      rintro rfl
      cases hsemicolon
    obtain (rfl | rfl) | rfl := hstop
    · exact absurd rfl hne
    · exact .inr ⟨_, by decide, more, rfl⟩
    · exact .inr ⟨_, by decide, more, rfl⟩

theorem ReadsUpTo.of_parse {line : String} {node : Node} (h : parse line = .ok node) :
    ∃ read rest, ReadsUpTo line node read rest ∧
      (rest = [] ∨ ∃ closer ∈ closers, ∃ more, rest = closer :: more) := by
  obtain ⟨c, hreads, hends⟩ := parse_eq_ok_iff.1 h
  have hplace : c.IsIn (stripComment line).toList :=
    (staysIn_ofDepth _).statements _ _ _ _ (.atStart _) hreads
  obtain ⟨hskip, hsemicolon⟩ := statements_ends hreads
  obtain ⟨read, hsplit, hpos⟩ := hplace
  refine ⟨read, c.rest, ⟨hsplit, c, hreads, ?_⟩, ?_⟩
  · rw [hskip, ← hpos]
  · rw [hskip] at hends
    exact c.closes_of_commandEnds hsemicolon hends

/-- A line is accepted exactly if its statements end at the end of the line or at a closing bracket; so a line without closing brackets that is accepted is read to its end. -/
theorem parse_eq_ok_iff_readsUpTo (line : String) (node : Node) :
    (parse line = .ok node ↔ ∃ read rest, ReadsUpTo line node read rest ∧
      (rest = [] ∨ ∃ closer ∈ closers, ∃ more, rest = closer :: more)) ∧
    (parse line = .ok node → (∀ closer ∈ closers, closer ∉ (stripComment line).toList) →
      ∃ read, ReadsUpTo line node read []) := by
  refine ⟨⟨ReadsUpTo.of_parse, ?_⟩, ?_⟩
  · rintro ⟨read, rest, ⟨-, c, hreads, hskip⟩, hrest⟩
    refine parse_eq_ok_iff.2 ⟨c, hreads, ?_⟩
    rw [hskip]
    obtain rfl | ⟨closer, hcloser, more, rfl⟩ := hrest
    · rfl
    · have hstop : ∀ c ∈ closers, Parser.isCommandStop c = true :=
        List.forall_mem_cons.2 ⟨rfl, List.forall_mem_singleton.2 rfl⟩
      exact hstop closer hcloser
  · intro h hopen
    obtain ⟨read, rest, hreads, rfl | ⟨closer, hcloser, more, rfl⟩⟩ := ReadsUpTo.of_parse h
    · exact ⟨read, hreads⟩
    · exact absurd (hreads.split ▸ List.mem_append_right read List.mem_cons_self) (hopen closer hcloser)

/-- Two statements and a comment: all of the line is read. -/
theorem readsUpTo_end_sequence :
    parse "pwd ; exit // ) cd /P" = .ok (.sequence [.printDir, .exit]) ∧
    (∀ closer ∈ closers, closer ∉ (stripComment "pwd ; exit // ) cd /P").toList) ∧
    ∃ read, ReadsUpTo "pwd ; exit // ) cd /P" (.sequence [.printDir, .exit]) read [] := by
  have hparse : parse "pwd ; exit // ) cd /P" = .ok (.sequence [.printDir, .exit]) := by rfl
  have hopen : ∀ closer ∈ closers, closer ∉ (stripComment "pwd ; exit // ) cd /P").toList :=
    List.forall_mem_cons.2 ⟨by decide, List.forall_mem_singleton.2 (by decide)⟩
  exact ⟨hparse, hopen, (parse_eq_ok_iff_readsUpTo _ _).2 hparse hopen⟩

/-- The second command of this line is behind a bracket that was never opened: the line is accepted, and the command is not read. -/
theorem not_readsUpTo_end_of_bracket :
    parse "pwd ) cd /P" = .ok .printDir ∧ ¬∃ read, ReadsUpTo "pwd ) cd /P" .printDir read [] := by
  have hreads : lineStatements "pwd ) cd /P" = .ok .printDir ⟨4, ") cd /P".toList⟩ := by rfl
  refine ⟨by rfl, ?_⟩
  rintro ⟨read, -, c, hc, hskip⟩
  cases hreads.symm.trans hc
  cases congrArg Cursor.rest hskip

end TwinShell.Language
