import TwinShell.Proofs.Language.Comments
import TwinShell.Proofs.Language.Statements

/-!
# Parsing inverts rendering

The statements of the core language are read back from their text, alone and one after the other, by induction on them. An expression that takes up the whole line is read back too.
-/

namespace TwinShell.Language

open TwinShell.Language.Parser (statement statements statementItems)

variable {depth : Nat} {text rest : List Char} {node : Node}

/-! ### Statements in a row -/

/-- A statement that is kept, and what the rule for the list does behind it. -/
theorem reads_statementItem {g : Grammar} {fuel : Nat} {before nodes : List Node} {more : List Char}
    (h : Reads (statement g) text node (more ++ rest)) (hnode : node.isSingle)
    (hmore : Reads (do
        Parser.skipSpaces
        if ← Parser.tryExact ";" then statementItems g fuel (node :: before)
        else return (node :: before).reverse)
      more nodes rest) :
    Reads (statementItems g (fuel + 1) before) (text ++ more) nodes rest := by
  refine h.bind ?_
  cases node <;> first | exact hmore | cases hnode

theorem reads_noSemicolon (hrest : Stops rest) (hmore : rest.head? ≠ some ';') :
    Reads (Parser.tryExact ";") [] false rest := by
  refine Reads.tryExact_false ?_
  cases hrest with
  | nil => rfl
  | cons rest hc =>
    show (';' == _ && true) = false
    rw [Bool.and_true, beq_eq_false_iff_ne]
    exact fun h => hmore (h ▸ rfl)

theorem length_le_statementsText (nodes : List Node) :
    nodes.length ≤ (statementsText nodes).length + 1 := by
  rw [statementsText_eq_intercalate, ← List.length_map statementText]
  exact length_le_intercalate ';' _

theorem length_statementText_le {nodes : List Node} (h : node ∈ nodes) :
    (statementText node).length ≤ (statementsText nodes).length := by
  rw [statementsText_eq_intercalate]
  exact length_le_intercalate_of_mem (List.mem_map_of_mem h)

theorem reads_statementItems {g : Grammar} {nodes : List Node} (hne : nodes ≠ [])
    (hnodes : ∀ node ∈ nodes, node.isSingle ∧
      ∀ {rest}, Stops rest → Reads (statement g) (statementText node) node rest)
    (hrest : Stops rest) (hmore : rest.head? ≠ some ';') {fuel : Nat} (hfuel : nodes.length ≤ fuel)
    (before : List Node) :
    Reads (statementItems g fuel before) (statementsText nodes) (before.reverse ++ nodes) rest := by
  induction nodes generalizing fuel before with
  | nil => exact absurd rfl hne
  | cons node nodes ih =>
    obtain ⟨fuel, rfl⟩ : ∃ n, fuel = n + 1 :=
      Nat.exists_eq_add_one.2 (Nat.lt_of_lt_of_le (Nat.succ_pos _) hfuel)
    obtain ⟨hsingle, hnode⟩ := hnodes node List.mem_cons_self
    by_cases hlast : nodes = []
    · subst hlast
      rw [statementsText, ← List.append_nil (statementText node), ← List.reverse_cons]
      refine reads_statementItem (hnode hrest) hsingle ?_
      refine Reads.bindNil (Reads.skipNoSpaces hrest.avoids_space) ?_
      exact (reads_noSemicolon hrest hmore).bindPure rfl
    · rw [statementsText_cons hlast]
      refine reads_statementItem (hnode (.cons _ (by decide))) hsingle ?_
      refine Reads.bindNil (Reads.skipNoSpaces rfl) ?_
      refine (Reads.tryExact ";" _).bind ?_
      have hitems := ih hlast (fun node h => hnodes node (List.mem_cons_of_mem _ h))
        (Nat.le_of_succ_le_succ hfuel) (node :: before)
      simpa using hitems

/-! ### All statements -/

/-- At this depth of nesting, the text of a node is read back: as a statement, as a list of statements, and, if it is a condition, behind its first word. -/
structure Reparses (depth : Nat) (node : Node) : Prop where
  statement : ¬node.isSequence → ∀ {rest}, Stops rest →
    Reads (statement (.ofDepth depth)) (statementText node) node rest
  statements : ∀ {rest}, Stops rest → rest.head? ≠ some ';' →
    Reads (statements (.ofDepth depth)) (statementText node) node rest
  conditional : ∀ {condition body otherwise}, node = .conditional condition body otherwise →
    ∀ {fuel rest}, (statementText node).length < fuel + 2 → Stops rest →
    Reads (Parser.conditional (.ofDepth depth) fuel)
      (guardedText (expressionText condition) (statementText body) ++ otherwiseText otherwise) node rest

theorem Reparses.body (h : Reparses depth node) : BodyReads depth node :=
  h.statements (.cons _ (by decide)) (by simp)

/-- A list of statements is read by the rule for its items. -/
theorem reads_statements {g : Grammar} (nodes : List Node)
    (h : ∀ {fuel}, (text ++ rest).length < fuel → Reads (statementItems g fuel []) text nodes rest) :
    Reads (statements g) text (Node.ofStatements nodes) rest := by
  intro ctx pos
  simp only [Parser.statements, Parser.bind_apply, Parser.look, h (Nat.lt_succ_self _) ctx pos]
  rfl

theorem reads_statements_single (hsingle : node.isSingle)
    (h : Reads (statement (.ofDepth depth)) text node rest) (hrest : Stops rest)
    (hmore : rest.head? ≠ some ';') : Reads (statements (.ofDepth depth)) text node rest := by
  refine reads_statements [node] fun {fuel} hfuel => ?_
  obtain ⟨fuel, rfl⟩ : ∃ n, fuel = n + 1 := Nat.exists_eq_add_one.2 (Nat.zero_lt_of_lt hfuel)
  rw [← List.append_nil text] at h ⊢
  refine reads_statementItem (by simpa using h) hsingle ?_
  refine Reads.bindNil (Reads.skipNoSpaces hrest.avoids_space) ?_
  exact (reads_noSemicolon hrest hmore).bindPure rfl

theorem reads_statements_nop (hrest : Stops rest) (hmore : rest.head? ≠ some ';') :
    Reads (statements (.ofDepth depth)) [] .nop rest := by
  refine reads_statements [] fun {fuel} hfuel => ?_
  obtain ⟨fuel, rfl⟩ : ∃ n, fuel = n + 1 := Nat.exists_eq_add_one.2 (Nat.zero_lt_of_lt hfuel)
  refine Reads.bindNil (reads_nop hrest) ?_
  refine Reads.bindNil (Reads.skipNoSpaces hrest.avoids_space) ?_
  exact (reads_noSemicolon hrest hmore).bindPure rfl

theorem Reparses.nop : Reparses depth .nop where
  statement _ _ hrest := statementText_nop ▸ reads_nop hrest
  statements hrest hmore := statementText_nop ▸ reads_statements_nop hrest hmore
  conditional := nofun

theorem Reparses.single (hsingle : node.isSingle)
    (hcondition : node.isConditional = false)
    (h : ∀ {rest}, Stops rest → Reads (Parser.statement (.ofDepth depth)) (statementText node) node
      rest) : Reparses depth node where
  statement _ _ hrest := h hrest
  statements hrest hmore := reads_statements_single hsingle (h hrest) hrest hmore
  conditional heq := by
    rw [heq] at hcondition
    cases hcondition

theorem Reparses.sequence {nodes : List Node} (htwo : 2 ≤ nodes.length)
    (hnodes : ∀ node ∈ nodes, node.isSingle ∧
      ∀ {rest}, Stops rest → Reads (Parser.statement (.ofDepth depth)) (statementText node) node rest) :
    Reparses depth (.sequence nodes) where
  statement hseq := absurd rfl hseq
  statements {rest} hrest hmore := by
    have hnode : Node.ofStatements nodes = .sequence nodes := by
      match nodes, htwo with
      | _ :: _ :: _, _ => rfl
    rw [statementText, ← hnode]
    refine reads_statements nodes fun {fuel} hfuel => ?_
    have hne : nodes ≠ [] := by rintro rfl; simp at htwo
    have hlength := length_le_statementsText nodes
    rw [List.length_append] at hfuel
    exact reads_statementItems hne hnodes hrest hmore (by omega) []
  conditional := nofun

/-- What is read behind the body of a condition, from what is known of the alternative. -/
theorem reads_alternatives {fuel : Nat} {e body : Node} {otherwise : Option Node}
    (hfuel : (otherwiseText otherwise).length < fuel)
    (hdepth : (otherwiseText otherwise).length ≤ depth)
    (h : ∀ node ∈ otherwise, ∀ {depth}, (statementText node).length ≤ depth → Reparses depth node)
    (hrest : Stops rest) :
    Reads (alternatives (.ofDepth (depth + 1)) fuel e body) (otherwiseText otherwise)
      (.conditional e body otherwise) rest := by
  cases otherwise with
  | none =>
    rw [otherwiseText]
    exact reads_noAlternative hrest
  | some node =>
    by_cases hcondition : ∃ c b o, node = .conditional c b o
    · obtain ⟨c, b, o, rfl⟩ := hcondition
      have htext : (statementText (.conditional c b o)).length + 3 ≤
          (otherwiseText (some (.conditional c b o))).length := by
        rw [otherwiseText, statementText]
        simp
      rw [otherwiseText]
      exact reads_elif ((h _ rfl (by omega)).conditional rfl (by omega) hrest)
    · have htext : otherwiseText (some node) = _ :=
        otherwiseText_else fun heq => hcondition ⟨_, _, _, heq⟩
      rw [htext]
      refine reads_else (h node rfl ?_).body
      rw [htext, blockText] at hdepth
      simp only [List.length_append, List.length_cons] at hdepth
      omega

theorem Reparses.ofConditional {e body : Node} {otherwise : Option Node} (he : ReadsBack e)
    (hbody : ∀ {depth}, (statementText body).length ≤ depth → Reparses depth body)
    (hotherwise : ∀ node ∈ otherwise, ∀ {depth}, (statementText node).length ≤ depth →
      Reparses depth node)
    (hdepth : (statementText (.conditional e body otherwise)).length ≤ depth) :
    Reparses depth (.conditional e body otherwise) := by
  have htext : statementText (.conditional e body otherwise) =
      "if".toList ++ (guardedText (expressionText e) (statementText body) ++ otherwiseText otherwise) := by
    rw [statementText]
  have hlength : (statementText (.conditional e body otherwise)).length =
      (expressionText e).length + (statementText body).length + (otherwiseText otherwise).length + 6 := by
    rw [htext]
    simp only [guardedText, blockText, List.length_append, List.length_cons, List.length_nil,
      show "if".toList.length = 2 from rfl]
    omega
  obtain ⟨depth, rfl⟩ : ∃ d, depth = d + 1 := Nat.exists_eq_add_one.2 (by omega)
  have hchain : ∀ {fuel rest}, (statementText (.conditional e body otherwise)).length < fuel + 2 →
      Stops rest → Reads (Parser.conditional (.ofDepth (depth + 1)) fuel)
        (guardedText (expressionText e) (statementText body) ++ otherwiseText otherwise)
        (.conditional e body otherwise) rest := by
    intro fuel rest hfuel hrest
    obtain ⟨fuel, rfl⟩ : ∃ n, fuel = n + 1 := Nat.exists_eq_add_one.2 (by omega)
    exact reads_guardedChain (he (by omega)) (hbody (by omega)).body
      (reads_alternatives (by omega) (by omega) hotherwise hrest)
  have hstatement : ∀ {rest}, Stops rest → Reads (Parser.statement (.ofDepth (depth + 1)))
      (statementText (.conditional e body otherwise)) (.conditional e body otherwise) rest := by
    intro rest hrest
    rw [htext]
    refine reads_if fun {fuel} hfuel => hchain ?_ hrest
    rw [htext, List.length_append, show "if".toList.length = 2 from rfl]
    omega
  exact {
    statement := fun _ _ hrest => hstatement hrest
    statements := fun hrest hmore => reads_statements_single rfl (hstatement hrest) hrest hmore
    conditional := by rintro _ _ _ ⟨⟩ fuel rest hfuel hrest; exact hchain hfuel hrest }

/-- Every statement of the core language is read back from its text. -/
theorem IsCore.reparses (h : IsCore node) :
    ∀ {depth}, (statementText node).length ≤ depth → Reparses depth node := by
  induction h with
  | nop => exact fun _ => .nop
  | assign hname hvalue =>
    intro depth hdepth
    rw [statementText] at hdepth
    simp only [List.length_append, show ".var:".toList.length = 5 from rfl] at hdepth
    obtain ⟨depth, rfl⟩ : ∃ d, depth = d + 1 := Nat.exists_eq_add_one.2 (by omega)
    exact .single rfl rfl fun hrest => reads_assign hname (hvalue.readsBack (by omega)) hrest
  | @print text htext =>
    intro depth hdepth
    rw [Node.text, statementText, List.length_append,
      show "print \"".toList.length = 7 from rfl] at hdepth
    obtain ⟨depth, rfl⟩ : ∃ d, depth = d + 1 := Nat.exists_eq_add_one.2 (by omega)
    exact .single rfl rfl fun hrest => reads_print htext hrest
  | callAlias hname hkeyword =>
    intro depth hdepth
    refine .single rfl rfl fun hrest => ?_
    rw [statementText]
    exact reads_callAlias hname hkeyword hrest
  | printDir => exact fun _ => .single rfl rfl fun hrest => reads_printDir hrest
  | exit => exact fun _ => .single rfl rfl fun hrest => reads_exit hrest
  | defineAlias hname hbody ih =>
    intro depth hdepth
    rw [statementText] at hdepth
    simp only [blockText, List.length_append, List.length_cons] at hdepth
    obtain ⟨depth, rfl⟩ : ∃ d, depth = d + 1 := Nat.exists_eq_add_one.2 (by omega)
    exact .single rfl rfl fun _ => reads_defineAlias hname (ih (by omega)).body
  | conditional hcondition hbody hotherwise ihbody ihotherwise =>
    exact fun hdepth => .ofConditional hcondition.readsBack ihbody ihotherwise hdepth
  | whileLoop hcondition hbody ih =>
    intro depth hdepth
    rw [statementText] at hdepth
    simp only [guardedText, blockText, List.length_append, List.length_cons] at hdepth
    obtain ⟨depth, rfl⟩ : ∃ d, depth = d + 1 := Nat.exists_eq_add_one.2 (by omega)
    exact .single rfl rfl fun _ =>
      reads_whileLoop (hcondition.readsBack (by omega)) (ih (by omega)).body
  | forLoop hinit hone hcondition hstep hone' hbody ihinit ihstep ihbody =>
    intro depth hdepth
    rw [statementText] at hdepth
    simp only [blockText, List.length_append, List.length_cons] at hdepth
    obtain ⟨depth, rfl⟩ : ∃ d, depth = d + 1 := Nat.exists_eq_add_one.2 (by omega)
    refine .single rfl rfl fun _ => reads_forLoop ?_ (hcondition.readsBack (by omega)) ?_
      (ihbody (by omega)).body
    · exact (ihinit (by omega)).statement hone (.cons _ (by decide))
    · exact (ihstep (by omega)).statement hone' (.cons _ (by decide))
  | forRange hname hfirst hlast hbody ih =>
    intro depth hdepth
    rw [statementText] at hdepth
    simp only [blockText, List.length_append, List.length_cons] at hdepth
    obtain ⟨depth, rfl⟩ : ∃ d, depth = d + 1 := Nat.exists_eq_add_one.2 (by omega)
    exact .single rfl rfl fun _ => reads_forRange hname (hfirst.readsBack (by omega))
      (hlast.readsBack (by omega)) (ih (by omega)).body
  | forEach hname harray hbody ih =>
    intro depth hdepth
    rw [statementText] at hdepth
    simp only [guardedText, blockText, List.length_append, List.length_cons] at hdepth
    obtain ⟨depth, rfl⟩ : ∃ d, depth = d + 1 := Nat.exists_eq_add_one.2 (by omega)
    exact .single rfl rfl fun _ =>
      reads_forEach hname (harray.readsBack (by omega)) (ih (by omega)).body
  | sequence htwo hstatements hsingle ih =>
    intro depth hdepth
    rw [statementText] at hdepth
    refine .sequence htwo fun node hnode => ⟨hsingle node hnode, fun hrest => ?_⟩
    have hlength := length_statementText_le hnode
    exact (ih node hnode (by omega)).statement
      (Node.not_isSequence_of_isSingle (hsingle node hnode)) hrest

/-- Parsing inverts rendering: the text of a statement is read as exactly that statement. -/
theorem parse_render (h : IsCore node) : parse (render node) = .ok node := by
  have htext : (render node).toList = statementText node := String.toList_ofList
  have hstrip : stripComment (render node) = render node := by
    have huncommented := h.uncommented []
    rw [List.append_nil, show commentless [] = [] from rfl, List.append_nil] at huncommented
    rw [stripComment, htext, huncommented, render]
  have hdepth : (statementText node).length ≤ (render node).length + 1 := by
    rw [← htext, String.length_toList]
    exact Nat.le_succ _
  have hread := (h.reparses hdepth).statements .nil (by simp) ⟨render node, []⟩ 0
  have hends := Stops.nil.commandEnds ⟨render node, []⟩ (0 + (statementText node).length)
  rw [List.append_nil] at hread
  simp only [List.nil_append, List.length_nil, Nat.add_zero] at hends
  have hgrammar : (Grammar.ofDepth (depthFor (render node))).statements =
      Parser.statements (.ofDepth ((render node).length + 1)) := rfl
  simp only [parse, parseLine, hstrip, Parser.runOn, Parser.bind_apply, Cursor.start, htext, hgrammar,
    hread, hends, if_true]
  rfl

/-- A list of a text with a slash in it and a condition with an empty alternative. -/
theorem parse_render_sequence :
    parse (render (.sequence [.print (.text "a/b"),
      .conditional (.not (.element "done" (.literal (.int 0)))) (.callAlias "pwdx") (some .nop)])) =
    .ok (.sequence [.print (.text "a/b"),
      .conditional (.not (.element "done" (.literal (.int 0)))) (.callAlias "pwdx") (some .nop)]) := by
  have hname : ∀ {name : String}, name ≠ "" → name.toList.all Text.isNameChar → IsName name :=
    fun hne hall => ⟨hne, List.all_eq_true.1 hall⟩
  refine parse_render (.sequence (by decide) ?_ ?_)
  · intro node hnode
    simp only [List.mem_cons, List.not_mem_nil, or_false] at hnode
    rcases hnode with rfl | rfl
    · exact .print ⟨by decide, by decide, by decide⟩
    · refine .conditional (.not (.element (hname (by decide) rfl) (.int (by decide))))
        (.callAlias (hname (by decide) rfl) (by decide)) ?_
      rintro _ ⟨⟩
      exact .nop
  · intro node hnode
    simp only [List.mem_cons, List.not_mem_nil, or_false] at hnode
    rcases hnode with rfl | rfl <;> rfl

/-! ### Whole lines -/

/-- A line without a comment that a rule reads to its end. -/
theorem parseLine_of_reads {p : Grammar → Parser Node} {ends : Parser Bool} {line : String}
    (hline : Uncommented line.toList) (h : Reads (p (.ofDepth (depthFor line))) line.toList node [])
    (hends : Reads ends [] true []) : parseLine p ends line = .ok node := by
  have hstrip : stripComment line = line := by
    have huncommented := hline []
    rw [List.append_nil, show commentless [] = [] from rfl, List.append_nil] at huncommented
    rw [stripComment, huncommented, String.ofList_toList]
  have hread := h ⟨line, []⟩ 0
  have hend := hends ⟨line, []⟩ (0 + line.toList.length)
  rw [List.append_nil] at hread
  rw [List.append_nil, List.length_nil, Nat.add_zero] at hend
  simp only [parseLine, hstrip, Parser.runOn, Parser.bind_apply, Cursor.start, hread, hend, if_true]
  rfl

theorem parse_of_reads {line : String} (hline : Uncommented line.toList) (hsingle : node.isSingle)
    (h : Reads (statement (.ofDepth (line.length + 1))) line.toList node []) :
    parse line = .ok node :=
  parseLine_of_reads hline (reads_statements_single hsingle h .nil (by simp)) Stops.nil.commandEnds

theorem parseExpression_of_reads {line : String} (hline : Uncommented line.toList)
    (h : Reads (Parser.expression (.ofDepth (line.length + 1))) line.toList node []) :
    parseExpression line = .ok node :=
  parseLine_of_reads hline h (Reads.look fun _ => rfl)

/-! ### Expressions -/

/-- The text of an expression that takes up the whole line. -/
def renderExpression (e : Node) : String := String.ofList (expressionText e)

/-- Precedence climbing inverts rendering with as few parentheses as precedence allows. -/
theorem parseExpression_renderExpression {e : Node} (h : IsExpression e) :
    parseExpression (renderExpression e) = .ok e := by
  have htext : (renderExpression e).toList = expressionText e := String.toList_ofList
  have hdepth : (expressionText e).length ≤ (renderExpression e).length + 1 := by
    rw [← htext, String.length_toList]
    exact Nat.le_succ _
  refine parseExpression_of_reads ?_ ?_
  · rw [htext]
    exact h.uncommented
  · rw [htext]
    exact (h.readsBack hdepth).expressionEnd .nil rfl

/-- A difference whose operands are differences, the second one with a sign before a sum. -/
def nestedDifference : Node :=
  .binary (.arith .sub) (.binary (.arith .sub) (.symbol "a") (.literal (.int 1)))
    (.binary (.arith .sub) (.negate (.binary (.arith .add) (.symbol "b") (.symbol "c")))
      (.binary (.arith .mul) (.symbol "d") (.literal (.int 2))))

/-- Equal levels group to the left, so of the two operands only the right one needs parentheses. -/
theorem parseExpression_renderExpression_nested :
    renderExpression nestedDifference = "$a - 1 - (-($b + $c) - $d * 2)" ∧
    parseExpression "$a - 1 - (-($b + $c) - $d * 2)" = .ok nestedDifference := by
  have hsymbol : ∀ {name : String}, name ≠ "" → name.toList.all Text.isNameChar → IsExpression (.symbol name) :=
    fun hne hall => .symbol (.of_all hne hall)
  have htext : renderExpression nestedDifference = "$a - 1 - (-($b + $c) - $d * 2)" := by cbv
  refine ⟨htext, htext ▸ parseExpression_renderExpression (.binary _ (.binary _ ?_ (.int (by decide)))
    (.binary _ (.negate (.binary _ ?_ ?_)) (.binary _ ?_ (.int (by decide)))))⟩
  all_goals exact hsymbol (by decide) rfl

end TwinShell.Language
