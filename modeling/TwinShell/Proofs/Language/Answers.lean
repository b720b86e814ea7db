import TwinShell.Proofs.Language.Reports
import TwinShell.Proofs.Language.Termination

/-!
# Every line is answered

Whatever the line, reading it comes to a result or to a report about it, and the bounds on nesting and rounds have no part in the answer: any depth beyond the number of characters of the line gives the same one. The rules of two depths are compared by `Upholds`, one rule after the other and then by induction on the smaller depth; that the smaller one does not give up is what `Language/Termination` shows.
-/

namespace TwinShell.Language

variable {line : String}

section Rules

variable {g h : Grammar} (hg : g.Upholds line h)
include hg

/-! ### Expressions and text -/

theorem upholds_textPieces (mode : TextMode) (k : Nat) (pieces : Parser.TextPieces) :
    Upholds line (Parser.textPieces g mode k pieces) (Parser.textPieces h mode k pieces) := by
  refine Upholds.loop _ _ (fun _ => rfl) (fun k pieces hround => ?_) k pieces
  refine (Upholds.textToken mode).bind fun ⟨kind, text, start⟩ => ?_
  cases kind with
  | text | reference => exact hround _
  | leftEval => exact hg.expression.bind fun _ => (Upholds.expect _).bind fun _ => hround _
  | _ => exact .pure _

theorem upholds_textNode (mode : TextMode) (trim : Bool) :
    Upholds line (Parser.textNode g mode trim) (Parser.textNode h mode trim) :=
  .fuel fun k => (upholds_textPieces hg mode k _).bindPure

theorem upholds_path (name : String) : Upholds line (Parser.path g name) (Parser.path h name) := by
  refine .traced (Upholds.skipSpaces.bind fun _ => (upholds_textNode hg _ _).bind fun _ => ?_)
  exact Upholds.skipSpaces.bindPure

theorem upholds_pathItems (k : Nat) (paths : List Node) :
    Upholds line (Parser.pathItems g k paths) (Parser.pathItems h k paths) := by
  refine Upholds.loop _ _ (fun _ => rfl) (fun k paths hround => ?_) k paths
  refine Upholds.skipSpaces.bind fun _ => (upholds_path hg _).bind fun item => ?_
  exact Upholds.skipSpaces.bind fun _ => .ifExact (.pure _) (.ifExact (hround _) (.fail _))

theorem upholds_pathGroup : Upholds line (Parser.pathGroup g) (Parser.pathGroup h) := by
  refine .traced (Upholds.skipSpaces.bind fun _ => (Upholds.expect _).bind fun _ => .fuel fun k => ?_)
  exact (upholds_pathItems hg k _).bind fun _ => Upholds.skipSpaces.bindPure

theorem upholds_string (name : String) : Upholds line (Parser.string g name) (Parser.string h name) := by
  refine .traced (Upholds.skipSpaces.bind fun _ => (Upholds.look _).bind fun _ => .ite hg.expression ?_)
  exact (upholds_textNode hg _ _).bind fun _ => Upholds.skipSpaces.bindPure

theorem upholds_value : Upholds line (Parser.value g) (Parser.value h) := by
  refine .traced (Upholds.skipSpaces.bind fun _ => .ifExact hg.expression ?_)
  refine (Upholds.look _).bind fun _ => .ite hg.expression ((Upholds.look _).bind fun _ => .ite ?_ ?_)
  · exact (Upholds.skip 2).bind fun _ => hg.statements.bind fun _ => (Upholds.expect _).bindPure
  · refine .cursor fun start hstart => hg.expression.attempt.bind fun node => ?_
    cases node with
    | none => exact upholds_string hg _
    | some node =>
      refine Upholds.valueEnds.bind fun _ => .ite (.cursor fun _ _ => .pure _) ?_
      exact (Upholds.goto hstart).bind fun _ => upholds_string hg _

theorem upholds_expressionItems (close : String) (k : Nat) (items : List Node) :
    Upholds line (Parser.expressionItems g close k items) (Parser.expressionItems h close k items) := by
  refine Upholds.loop _ _ (fun _ => rfl) (fun k items hround => ?_) k items
  exact hg.expression.bind fun _ => .ifExact (.pure _) (.ifExact (hround _) (.fail _))

theorem upholds_expressionList (close : String) :
    Upholds line (Parser.expressionList g close) (Parser.expressionList h close) := by
  refine .traced (Upholds.skipSpaces.bind fun _ => .ifExact (.pure _) (.fuel fun k => ?_))
  exact upholds_expressionItems hg close k _

theorem upholds_arrayItems (k : Nat) (items : List Node) :
    Upholds line (Parser.arrayItems g k items) (Parser.arrayItems h k items) := by
  refine Upholds.loop _ _ (fun _ => rfl) (fun k items hround => ?_) k items
  refine hg.expression.traced.bind fun _ => .token fun ⟨kind, text, offset⟩ hoffset => ?_
  cases kind with
  | rightBracket => exact .pure _
  | comma => exact hround _
  | _ => exact .failAt hoffset _

theorem upholds_array : Upholds line (Parser.array g) (Parser.array h) := by
  refine .cursor fun start hstart => .token fun ⟨kind, text, offset⟩ _ => ?_
  cases kind with
  | rightBracket => exact .pure _
  | _ => exact (Upholds.goto hstart).bind fun _ => .fuel fun k => (upholds_arrayItems hg k _).bindPure

theorem upholds_afterReference (name : String) :
    Upholds line (Parser.afterReference g name) (Parser.afterReference h name) := by
  refine .cursor fun start hstart => .token fun ⟨kind, text, offset⟩ _ => ?_
  cases kind with
  | leftBracket =>
    refine hg.expression.traced.bind fun _ => .token fun ⟨kind, text, offset⟩ _ => ?_
    cases kind with
    | rightBracket => exact .pure _
    | _ => exact .fail _
  | _ => exact (Upholds.goto hstart).bindPure

theorem upholds_primary : Upholds line (Parser.primary g) (Parser.primary h) := by
  refine .token fun ⟨kind, text, offset⟩ hoffset => ?_
  cases kind with
  | bool | int | float => exact .pure _
  | quote => exact (upholds_textNode hg _ _).bind fun _ => (Upholds.expect _).bindPure
  | reference name => exact upholds_afterReference hg name
  | leftEval => exact hg.expression.bind fun _ => (Upholds.expect _).bindPure
  | leftParen =>
    refine hg.expression.bind fun _ => .token fun ⟨kind, text, offset⟩ hoffset => ?_
    cases kind with
    | rightParen => exact .pure _
    | _ => exact .failAt hoffset _
  | leftBracket => exact upholds_array hg
  | format =>
    refine Upholds.skipSpaces.bind fun _ => (Upholds.expect _).bind fun _ => ?_
    refine (upholds_expressionList hg _).bind fun items => ?_
    cases items with
    | cons template args => exact .pure _
    | nil => exact .fail _
  | _ => exact .failAt hoffset _

theorem upholds_unary : Upholds line (Parser.unary g) (Parser.unary h) := by
  refine .cursor fun start hstart => .token fun ⟨kind, text, offset⟩ _ => ?_
  have hback : Upholds line (do Parser.goto start; Parser.primary g) (do Parser.goto start; Parser.primary h) :=
    (Upholds.goto hstart).bind fun _ => upholds_primary hg
  cases kind with
  | not => exact hg.unary.bindPure
  | operator op =>
    match op with
    | .arith .add => exact hg.unary
    | .arith .sub => exact hg.unary.bindPure
    | .arith .mul | .arith .div | .arith .intDiv | .arith .mod => exact hback
    | .compare _ | .equal | .notEqual | .and | .or => exact hback
  | _ => exact hback

theorem upholds_binaryTail (level k : Nat) (left : Node) :
    Upholds line (Parser.binaryTail g level k left) (Parser.binaryTail h level k left) := by
  refine Upholds.loop _ _ (fun _ => rfl) (fun k left hround => ?_) k left
  refine .cursor fun start hstart => .token fun ⟨kind, text, offset⟩ _ => ?_
  cases kind with
  | operator op => exact .ite ((hg.binary _).bind fun _ => hround _) (Upholds.goto hstart).bindPure
  | _ => exact (Upholds.goto hstart).bindPure

theorem upholds_binary (level : Nat) : Upholds line (Parser.binary g level) (Parser.binary h level) :=
  (upholds_unary hg).bind fun _ => .fuel fun k => upholds_binaryTail hg level k _

theorem upholds_expression : Upholds line (Parser.expression g) (Parser.expression h) :=
  (upholds_binary hg 1).bind fun _ => Upholds.skipSpaces.bindPure

/-! ### Parts of commands -/

omit hg in
theorem upholds_optionWords (k : Nat) (words : List String) :
    Upholds line (Parser.optionWords k words) (Parser.optionWords k words) := by
  refine Upholds.loop _ _ (fun _ => rfl) (fun k words hround => ?_) k words
  exact Upholds.complexWord.bind fun _ => .ifExact (hround _) (.pure _)

omit hg in
theorem upholds_optionValue : Upholds line Parser.optionValue Parser.optionValue := by
  refine .traced (Upholds.skipSpaces.bind fun _ => .ifExact (.cursor fun _ _ => ?_) (.fuel fun k => ?_))
  · refine (Upholds.skipWhile _).bind fun _ => .cursor fun _ _ => (Upholds.expect _).bind fun _ => ?_
    exact Upholds.skipSpaces.bindPure
  · exact (upholds_optionWords k _).bind fun _ => .ite (.fail _) (.pure _)

omit hg in
theorem upholds_optionItems (withValue flags : List String) (k : Nat) (options : Dict String) :
    Upholds line (Parser.optionItems withValue flags k options)
      (Parser.optionItems withValue flags k options) := by
  refine Upholds.loop _ _ (fun _ => rfl) (fun k options hround => ?_) k options
  refine Upholds.skipSpaces.bind fun _ => .cursor fun start hstart => .ite ?_ (.pure _)
  refine (Upholds.skip 1).bind fun _ => Upholds.simpleWord.bind fun name => .ite (hround _) (.ite ?_ ?_)
  · exact upholds_optionValue.bind fun _ => hround _
  · exact .failAt hstart.pos_le _

omit hg in
theorem upholds_options (withValue flags : List String) :
    Upholds line (Parser.options withValue flags) (Parser.options withValue flags) :=
  .traced (.fuel fun k => upholds_optionItems _ _ k _)

omit hg in
theorem upholds_separator : Upholds line Parser.separator Parser.separator :=
  Upholds.skipSpaces.bind fun _ => .expect _

theorem upholds_body : Upholds line (Parser.body g) (Parser.body h) := by
  refine .traced (Upholds.skipSpaces.bind fun _ => (Upholds.expect _).bind fun _ => ?_)
  exact hg.statements.bind fun _ => Upholds.skipSpaces.bind fun _ => (Upholds.expect _).bindPure

theorem upholds_optionalPath : Upholds line (Parser.optionalPath g) (Parser.optionalPath h) :=
  Upholds.commandEnds.bind fun _ => .ite (.pure _) (upholds_path hg _).bindPure

theorem upholds_optionalExpression (name : String) :
    Upholds line (Parser.optionalExpression g name) (Parser.optionalExpression h name) :=
  Upholds.commandEnds.bind fun _ => .ite (.pure _) hg.expression.traced.bindPure

theorem upholds_optionalValue : Upholds line (Parser.optionalValue g) (Parser.optionalValue h) :=
  Upholds.skipSpaces.bind fun _ => .ifExact (upholds_value hg).bindPure (.pure _)

theorem upholds_listFilters (k : Nat) (filters : List (String × Node)) :
    Upholds line (Parser.listFilters g k filters) (Parser.listFilters h k filters) := by
  refine Upholds.loop _ _ (fun _ => rfl) (fun k filters hround => ?_) k filters
  refine Upholds.commandEnds.bind fun _ => .ite (.pure _) ?_
  refine Upholds.complexWord.traced.bind fun _ => .ite (.fail _) ((Upholds.expect _).bind fun _ => ?_)
  exact (upholds_textNode hg _ _).bind fun _ => hround _

/-! ### Commands -/

theorem upholds_listing (category : Option Kind) :
    Upholds line (Parser.listing g category) (Parser.listing h category) := by
  refine (upholds_options _ _).bind fun options => .cursor fun start hstart => ?_
  refine Upholds.simpleWord.bind fun word => (Upholds.look _).bind fun filtersOnly => ?_
  refine (Upholds.goto hstart).bind fun _ => ?_
  extract_lets afterPath afterHere afterPath' afterHere'
  have hpath : ∀ path, Upholds line (afterPath path) (afterPath' path) := fun path =>
    .fuel fun k => (upholds_listFilters hg k _).bindPure
  have hhere : ∀ here, Upholds line (afterHere here) (afterHere' here) := fun here =>
    .ite ((Upholds.pure _).bind hpath) ((upholds_path hg _).bind hpath)
  exact .ite ((Upholds.pure _).bind hhere) (Upholds.commandEnds.bind hhere)

omit hg in
theorem upholds_variableName : Upholds line Parser.variableName Parser.variableName :=
  Upholds.simpleWord.traced.bind fun _ => .ite (.fail _) (.pure _)

theorem upholds_unset : Upholds line (Parser.unset g) (Parser.unset h) := by
  refine (upholds_options _ _).bind fun options => ?_
  split
  · exact .pure _
  · exact .pure _
  · refine (upholds_path hg _).bind fun _ => (Upholds.expect _).bind fun _ => ?_
    refine Upholds.complexWord.traced.bind fun _ => .ite (.fail _) (.ifExact ?_ (.pure _))
    exact hg.expression.traced.bind fun _ => (Upholds.expect _).bindPure

theorem upholds_env : Upholds line (Parser.env g) (Parser.env h) := by
  refine Upholds.commandEnds.bind fun _ => .ite (.pure _) ?_
  refine Upholds.simpleWord.traced.bind fun _ => (Upholds.expect _).bind fun _ => ?_
  exact (upholds_value hg).bindPure

theorem upholds_printfItems (k : Nat) (items : List Node) :
    Upholds line (Parser.printfItems g k items) (Parser.printfItems h k items) := by
  refine Upholds.loop _ _ (fun _ => rfl) (fun k items hround => ?_) k items
  exact hg.expression.bind fun _ => .ifExact (hround _) (.pure _)

theorem upholds_printf : Upholds line (Parser.printf g) (Parser.printf h) := by
  refine .fuel fun k => (upholds_printfItems hg k _).bind fun items => ?_
  cases items with
  | cons template args => exact .pure _
  | nil => exact .fail _

theorem upholds_conditional (k : Nat) : Upholds line (Parser.conditional g k) (Parser.conditional h k) := by
  refine Upholds.loop (fun k (_ : Unit) => Parser.conditional g k) (fun k _ => Parser.conditional h k)
    (fun _ => rfl) (fun k _ hround => ?_) k ()
  refine hg.expression.traced.bind fun _ => (upholds_body hg).bind fun _ => ?_
  refine Upholds.skipSpaces.bind fun _ => .ifExact (hround ()).traced.bindPure ?_
  exact .ifExact (upholds_body hg).bindPure (.pure _)

theorem upholds_countedLoop : Upholds line (Parser.countedLoop g) (Parser.countedLoop h) := by
  refine hg.statement.bind fun _ => Upholds.skipSpaces.bind fun _ => (Upholds.expect _).bind fun _ => ?_
  refine hg.expression.traced.bind fun _ => (Upholds.expect _).bind fun _ => ?_
  refine hg.statement.bind fun _ => Upholds.skipSpaces.bind fun _ => (Upholds.expect _).bind fun _ => ?_
  exact (upholds_body hg).bindPure

theorem upholds_forLoop : Upholds line (Parser.forLoop g) (Parser.forLoop h) := by
  refine Upholds.skipSpaces.bind fun _ => .ifExact (upholds_countedLoop hg) ?_
  refine Upholds.simpleWord.traced.bind fun _ => .ite (.fail _) (.ifExact ?_ (.fail _))
  refine (Upholds.look _).bind fun _ => .ite (.fail _) (hg.expression.bind fun _ => ?_)
  refine .ifExact ?_ (upholds_body hg).bindPure
  exact hg.expression.traced.bind fun _ => (upholds_body hg).bindPure

theorem upholds_select : Upholds line (Parser.select g) (Parser.select h) := by
  refine Upholds.skipSpaces.bind fun _ => (Upholds.look _).bind fun _ => ?_
  refine .ite (upholds_pathGroup hg).bindPure ((upholds_optionalPath hg).bind fun path => ?_)
  cases path with
  | some path => exact .pure _
  | none => exact .pure _

theorem upholds_delete : Upholds line (Parser.delete g) (Parser.delete h) := by
  refine .cursor fun start hstart => (Upholds.tryExact _).bind fun _ => (Upholds.look _).bind fun _ => ?_
  exact .ite (.pure _) ((Upholds.goto hstart).bind fun _ => (upholds_path hg _).bindPure)

theorem upholds_threeValues : Upholds line (Parser.threeValues g) (Parser.threeValues h) := by
  refine upholds_separator.bind fun _ => (upholds_value hg).bind fun _ => ?_
  refine upholds_separator.bind fun _ => (upholds_value hg).bind fun _ => ?_
  exact upholds_separator.bind fun _ => (upholds_value hg).bindPure

theorem upholds_creation (creatable : Creatable) :
    Upholds line (Parser.creation g creatable) (Parser.creation h creatable) := by
  have hexpect : Upholds line (Parser.expect ":") (Parser.expect ":") := .expect ":"
  have hpath := upholds_path hg ""
  have hvalue := upholds_value hg
  have hthree := upholds_threeValues hg
  cases creatable with
  | orphan =>
    refine Upholds.skipSpaces.bind fun _ => (Upholds.keyword? _).bind fun found => ?_
    cases found with
    | none => exact .fail _
    | some found =>
      exact hexpect.bind fun _ => hpath.bind fun _ => upholds_separator.bind fun _ => hvalue.bindPure
  | domain =>
    exact hexpect.bind fun _ => hpath.bind fun _ => upholds_separator.bind fun _ => hvalue.bindPure
  | site => exact hexpect.bind fun _ => hpath.bindPure
  | building | rack => exact hexpect.bind fun _ => hpath.bind fun _ => hthree.bindPure
  | room =>
    refine hexpect.bind fun _ => hpath.bind fun _ => hthree.bind fun _ => ?_
    refine (upholds_optionalValue hg).bind fun axis => ?_
    cases axis with
    | none => exact .pure _
    | some axis => exact (upholds_optionalValue hg).bindPure
  | device =>
    refine hexpect.bind fun _ => hpath.bind fun _ => upholds_separator.bind fun _ => ?_
    refine hvalue.bind fun _ => upholds_separator.bind fun _ => hvalue.bind fun _ => ?_
    exact (upholds_optionalValue hg).bindPure
  | corridor =>
    refine hexpect.bind fun _ => hpath.bind fun _ => upholds_separator.bind fun _ => ?_
    refine .cursor fun start hstart => (upholds_pathGroup hg).bind fun racks => ?_
    match racks with
    | [left, right] => exact upholds_separator.bind fun _ => hvalue.bindPure
    | [] | [_] | _ :: _ :: _ :: _ => exact .failAt hstart.pos_le _
  | group =>
    refine hexpect.bind fun _ => hpath.bind fun _ => upholds_separator.bind fun _ => ?_
    exact (upholds_pathGroup hg).bindPure
  | tag =>
    refine hexpect.bind fun _ => (upholds_string hg _).bind fun _ => upholds_separator.bind fun _ => ?_
    exact hvalue.bindPure

theorem upholds_create : Upholds line (Parser.create g) (Parser.create h) := by
  refine (Upholds.keyword? _).bind fun found => ?_
  cases found with
  | none => exact .fail _
  | some found => exact (upholds_creation hg _).traced.bindPure

theorem upholds_valueItems (k : Nat) (values : List Node) :
    Upholds line (Parser.valueItems g k values) (Parser.valueItems h k values) := by
  refine Upholds.loop _ _ (fun _ => rfl) (fun k values hround => ?_) k values
  exact (upholds_value hg).bind fun _ => Upholds.skipSpaces.bind fun _ => .ifExact (hround _) (.pure _)

theorem upholds_update : Upholds line (Parser.update g) (Parser.update h) := by
  refine .traced ((upholds_path hg _).bind fun _ => .ifExact ?_ (.fail _))
  refine Upholds.complexWord.traced.bind fun _ => .ite (.fail _) ((Upholds.expect _).bind fun _ => ?_)
  refine Upholds.skipSpaces.bind fun _ => (Upholds.tryExact _).bind fun _ => .fuel fun k => ?_
  exact (upholds_valueItems hg k _).bindPure

theorem upholds_link : Upholds line (Parser.link g) (Parser.link h) := by
  refine (upholds_path hg _).bind fun _ => upholds_separator.bind fun _ => ?_
  exact (upholds_path hg _).bind fun _ => (upholds_optionalValue hg).bindPure

theorem upholds_unlink : Upholds line (Parser.unlink g) (Parser.unlink h) := by
  refine (upholds_path hg _).bind fun _ => Upholds.skipSpaces.bind fun _ => ?_
  exact .ifExact (upholds_path hg _).bindPure (.pure _)

theorem upholds_draw : Upholds line (Parser.draw g) (Parser.draw h) :=
  (upholds_options _ _).bind fun _ => (upholds_optionalPath hg).bind fun _ =>
    (upholds_optionalExpression hg _).bindPure

theorem upholds_ui : Upholds line (Parser.ui g) (Parser.ui h) := by
  have hequals {p q : Parser Node} (hp : Upholds line p q) :
      Upholds line (do Parser.skipSpaces; Parser.expect "="; p) (do Parser.skipSpaces; Parser.expect "="; q) :=
    Upholds.skipSpaces.bind fun _ => (Upholds.expect _).bind fun _ => hp
  refine (Upholds.keyword? _).bind fun found => ?_
  match found with
  | none => exact .fail _
  | some (_, .clearCache) => exact .pure _
  | some (_, .delay) => exact hequals hg.expression.traced.bindPure
  | some (_, .highlight) => exact hequals (upholds_path hg _).bindPure
  | some (_, .toggle feature) => exact hequals hg.expression.traced.bindPure

theorem upholds_camera : Upholds line (Parser.camera g) (Parser.camera h) := by
  refine (Upholds.keyword? _).bind fun found => ?_
  match found with
  | none => exact .fail _
  | some (_, .wait) =>
    refine Upholds.skipSpaces.bind fun _ => (Upholds.expect _).bind fun _ => ?_
    exact hg.expression.traced.bindPure
  | some (_, .go motion) =>
    refine Upholds.skipSpaces.bind fun _ => (Upholds.expect _).bind fun _ => ?_
    refine hg.expression.traced.bind fun _ => upholds_separator.bind fun _ => ?_
    exact hg.expression.traced.bindPure

omit hg in
theorem upholds_manual : Upholds line Parser.manual Parser.manual := by
  refine Upholds.commandEnds.bind fun _ => .ite (.pure _) (.cursor fun _ _ => ?_)
  exact (Upholds.skipWhile _).bind fun _ => .cursor fun _ _ => .pure _

theorem upholds_afterKeyword (keyword : Keyword) :
    Upholds line (Parser.afterKeyword g keyword) (Parser.afterKeyword h keyword) := by
  have hpath (name : String) := upholds_path hg name
  have hstring (name : String) := upholds_string hg name
  have hvalue := upholds_value hg
  have hbody := upholds_body hg
  cases keyword with
  | list category => exact upholds_listing hg category
  | get => exact (hpath _).bindPure
  | getUnit => exact (hpath _).bind fun _ => hg.expression.traced.bindPure
  | getSlot => exact (hpath _).bind fun _ => hvalue.bindPure
  | undraw | focus | changeDir => exact (upholds_optionalPath hg).bindPure
  | draw => exact upholds_draw hg
  | drawable =>
    refine (hpath _).bind fun _ => Upholds.commandEnds.bind fun _ => .ite (.pure _) ?_
    exact Upholds.complexWord.traced.bindPure
  | unset => exact upholds_unset hg
  | env => exact upholds_env hg
  | create => exact upholds_create hg
  | delete => exact upholds_delete hg
  | select => exact upholds_select hg
  | assign => exact upholds_variableName.bind fun _ => (Upholds.expect _).bind fun _ => hvalue.bindPure
  | runScript | checkScript | loadTemplate | print => exact (hstring _).bindPure
  | length => exact upholds_variableName.bindPure
  | link => exact upholds_link hg
  | unlink => exact upholds_unlink hg
  | copy => exact (hpath _).bind fun _ => (hstring _).bindPure
  | printf => exact upholds_printf hg
  | manual => exact upholds_manual
  | tree => exact (upholds_optionalPath hg).bind fun _ => (upholds_optionalExpression hg _).bindPure
  | ui => exact upholds_ui hg
  | camera => exact upholds_camera hg
  | whileLoop => exact hg.expression.traced.bind fun _ => hbody.bindPure
  | forLoop => exact upholds_forLoop hg
  | conditional => exact .fuel fun k => upholds_conditional hg k
  | defineAlias => exact Upholds.simpleWord.traced.bind fun _ => .ite (.fail _) hbody.bindPure
  | connect => exact Upholds.commandEnds.bind fun _ => .ite (.pure _) (hstring _).bindPure
  | printSelection | clearScreen | showPeers | printDir | exit | disconnect => exact .pure _

theorem upholds_statement : Upholds line (Parser.statement g) (Parser.statement h) := by
  refine .traced (Upholds.commandEnds.bind fun _ => .ite (.pure _) (.cursor fun start hstart => ?_))
  refine (Upholds.keyword? _).bind fun found => ?_
  cases found with
  | some found =>
    refine (Upholds.look _).bind fun _ => .ite (.failAt hstart.pos_le _) ?_
    exact (upholds_afterKeyword hg _).traced
  | none =>
    refine Upholds.simpleWord.bind fun name => ?_
    extract_lets afterName afterName'
    have hname : ∀ ends, Upholds line (afterName ends) (afterName' ends) := fun ends =>
      .ite (.pure _) ((Upholds.goto hstart).bind fun _ => upholds_update hg)
    exact .ite ((Upholds.pure _).bind hname) (Upholds.commandEnds.bind hname)

theorem upholds_statementItems (k : Nat) (nodes : List Node) :
    Upholds line (Parser.statementItems g k nodes) (Parser.statementItems h k nodes) := by
  refine Upholds.loop _ _ (fun _ => rfl) (fun k nodes hround => ?_) k nodes
  refine (upholds_statement hg).bind fun _ => Upholds.skipSpaces.bind fun _ => ?_
  exact .ifExact (hround _) (.pure _)

theorem upholds_statements : Upholds line (Parser.statements g) (Parser.statements h) :=
  .fuel fun k => (upholds_statementItems hg k _).bindPure

end Rules

theorem upholds_ofDepth {depth depth' : Nat} (hle : depth ≤ depth') :
    (Grammar.ofDepth depth).Upholds line (Grammar.ofDepth depth') := by
  induction depth generalizing depth' with
  | zero => exact ⟨.exhausted, fun _ => .exhausted, .exhausted, .exhausted, .exhausted⟩
  | succ depth ih =>
    obtain ⟨depth', rfl⟩ : ∃ d, depth' = d + 1 := Nat.exists_eq_add_one.2 (Nat.lt_of_lt_of_le (Nat.succ_pos _) hle)
    have hg := ih (Nat.le_of_succ_le_succ hle)
    exact ⟨upholds_expression hg, upholds_binary hg, upholds_unary hg, upholds_statement hg,
      upholds_statements hg⟩

/-! ### Whole lines -/

/-- Reads `p` up to a place that satisfies `ends`. -/
def Parser.upTo (p : Parser Node) (ends : Parser Bool) : Parser Node := do
  let node ← p
  if ← ends then return node else Parser.fail .unexpectedCharacter

theorem ends_upTo {p : Parser Node} {ends : Parser Bool} {n m : Nat} (hp : Ends n (fun _ => m) p)
    (hends : Ends m (fun _ => m) ends) : Ends n (fun _ => m) (p.upTo ends) :=
  hp.bind fun _ => hends.bind fun _ => .ite (.pure _) (.fail _)

theorem upholds_upTo {p q : Parser Node} {ends : Parser Bool} (hp : Upholds line p q)
    (hends : Upholds line ends ends) : Upholds line (p.upTo ends) (q.upTo ends) :=
  hp.bind fun _ => hends.bind fun _ => .ite (.pure _) (.fail _)

/-- What a reply says, if the parser did not give up. -/
def Reply.answer? {α : Type} : Reply α → Option (Except SyntaxError α)
  | .ok a _ => some (.ok a)
  | .error e => some (.error e)
  | .exhausted => none

/-- Reads a whole line with `p`, with parts nested at most `depth` deep: the answer, unless some nesting or some loop comes to the end of its bound. -/
def answerWithin? (depth : Nat) (p : Grammar → Parser Node) (ends : Parser Bool) (line : String) :
    Option (Except SyntaxError Node) :=
  ((p (Grammar.ofDepth depth)).upTo ends ⟨stripComment line, []⟩
    (Cursor.start (stripComment line).toList)).answer?

theorem parseLine_of_answerWithin? {p : Grammar → Parser Node} {ends : Parser Bool} {line : String}
    {answer : Except SyntaxError Node}
    (h : answerWithin? (depthFor (stripComment line)) p ends line = some answer) :
    parseLine p ends line = answer := by
  simp only [answerWithin?] at h
  change Parser.runOn ((p (Grammar.ofDepth (depthFor (stripComment line)))).upTo ends) _ = answer
  simp only [Parser.runOn]
  split <;> rename_i heq <;> rw [heq] at h <;> cases h <;> rfl

/-- A reply that is not given up is what every reply that upholds it says. -/
theorem Upheld.answer?_eq {α : Type} {reply reply' : Reply α} (h : Upheld line reply reply')
    (hreply : reply ≠ .exhausted) : reply'.answer? = reply.answer? := by
  cases h with
  | ok | error => rfl
  | gaveUp => exact absurd rfl hreply

theorem Upheld.isAbout {α : Type} {reply reply' : Reply α} {e : SyntaxError} (h : Upheld line reply reply')
    (hreply : reply.answer? = some (.error e)) : e.IsAbout line := by
  cases h with
  | ok | gaveUp => cases hreply
  | error he =>
    cases hreply
    exact he

theorem Reply.exists_answer {α : Type} {reply : Reply α} (h : reply ≠ .exhausted) :
    ∃ answer, reply.answer? = some answer := by
  cases reply with
  | ok a c => exact ⟨_, rfl⟩
  | error e => exact ⟨_, rfl⟩
  | exhausted => exact absurd rfl h

/-- A line is answered by whatever depth is beyond its length, and always in the same way. -/
theorem parseLine_answers (line : String) {p : Grammar → Parser Node} {ends : Parser Bool} {n : Nat}
    (hn : n = (stripComment line).length + 1)
    (hp : ∀ {g h : Grammar}, g.Upholds (stripComment line) h → Upholds (stripComment line) (p g) (p h))
    (hends : Upholds (stripComment line) ends ends) (hcomes : Ends n (fun _ => n) (p (Grammar.ofDepth n)))
    (hstops : Ends n (fun _ => n) ends) :
    (∀ depth, (stripComment line).length < depth →
      answerWithin? depth p ends line = some (parseLine p ends line)) ∧
    ∀ e, parseLine p ends line = .error e → e.IsAbout (stripComment line) := by
  have hcontext : Context.IsAbout (stripComment line) ⟨stripComment line, []⟩ := ⟨rfl, List.not_mem_nil⟩
  have hupheld : ∀ depth, n ≤ depth → Upheld (stripComment line) _ _ := fun depth hle =>
    upholds_upTo (hp (upholds_ofDepth hle)) hends _ _ hcontext (Cursor.IsIn.atStart _)
  have hlength : (Cursor.start (stripComment line).toList).rest.length < n := by
    rw [Cursor.start, String.length_toList, hn]
    exact Nat.lt_succ_self _
  have hcomes := (ends_upTo hcomes hstops ⟨stripComment line, []⟩ _ hlength).1
  obtain ⟨answer, hanswer⟩ := Reply.exists_answer hcomes
  have hdepths : ∀ depth, n ≤ depth → answerWithin? depth p ends line = some answer := fun depth hle => by
    rw [answerWithin?, (hupheld depth hle).answer?_eq hcomes, hanswer]
  have hparse : parseLine p ends line = answer := by
    refine parseLine_of_answerWithin? (hdepths _ ?_)
    rw [hn, depthFor]
    exact Nat.le_succ _
  rw [hparse]
  refine ⟨fun depth hdepth => hdepths depth (hn ▸ hdepth), ?_⟩
  rintro e rfl
  exact (hupheld n (Nat.le_refl n)).isAbout hanswer

/-- Reading a command line or an expression comes to an answer, which is the same for every bound on nesting beyond the length of the line; and a report is about the line without its comment. -/
theorem answered_about_line (line : String) :
    (∀ depth, (stripComment line).length < depth →
      answerWithin? depth Grammar.statements Parser.commandEnds line = some (parse line) ∧
      answerWithin? depth Grammar.expression (Parser.look Cursor.atEnd) line = some (parseExpression line)) ∧
    ∀ e, parse line = .error e ∨ parseExpression line = .error e →
      e.input = stripComment line ∧ e.position ≤ (stripComment line).length ∧ "" ∉ e.trail := by
  obtain ⟨hcommand, hcommandReport⟩ := parseLine_answers line rfl
    (fun hg => hg.statements) .commandEnds ((ends_ofDepth _).statements (Nat.le_refl _)) .commandEnds
  obtain ⟨hexpression, hexpressionReport⟩ := parseLine_answers line rfl
    (fun hg => hg.expression) (.look _) ((ends_ofDepth _).expression (Nat.le_refl _)) (.look _)
  refine ⟨fun depth hdepth => ⟨hcommand depth hdepth, hexpression depth hdepth⟩, fun e he => ?_⟩
  have habout : e.IsAbout (stripComment line) := he.elim (hcommandReport e) (hexpressionReport e)
  exact ⟨habout.input_eq, habout.position_le, habout.trail_named⟩

/-- An array that a comment cuts off: the report points to the end of what is left, and nesting of four is enough to find it. -/
theorem answered_about_open_array :
    (stripComment "[1 // one").length < 4 ∧
    answerWithin? 4 Grammar.expression (Parser.look Cursor.atEnd) "[1 // one" =
      some (.error ⟨.expected "] or comma", 3, [], "[1 "⟩) ∧
    3 ≤ (stripComment "[1 // one").length := by
  have hparse : parseExpression "[1 // one" = .error ⟨.expected "] or comma", 3, [], "[1 "⟩ := by rfl
  have hlength : (stripComment "[1 // one").length < 4 := by decide
  obtain ⟨hanswers, habout⟩ := answered_about_line "[1 // one"
  exact ⟨hlength, hparse ▸ (hanswers 4 hlength).2, (habout _ (.inr hparse)).2.1⟩

end TwinShell.Language
