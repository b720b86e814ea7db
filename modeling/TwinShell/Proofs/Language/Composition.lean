import TwinShell.Proofs.Language.Comments
import TwinShell.Proofs.Language.Separation
import TwinShell.Proofs.Language.Shapes
import TwinShell.Proofs.Language.Termination

/-!
# Lines put together

Two lines with a semicolon between them are read as the statements of the first one and then those of the second one. Reading the first line inside the longer one repeats what it does alone, up to the place where its statements end; there the semicolon makes it go on, and from then on it repeats the reading of the second line.

A value is read as an expression if it is one up to its end, and as text otherwise. So where a quotation in a value of the first line is left open, the second line may close it, and then the value reaches into the second line.
-/

namespace TwinShell.Language

variable {m : Embedding} {line : List Char} {g h : Grammar}

/-! ### Statements -/

/-- The statements read so far, last first, with one more. -/
def withStatement (node : Node) (nodes : List Node) : List Node :=
  match node with
  | .nop => nodes
  | node => node :: nodes

theorem withStatement_append (node : Node) (nodes others : List Node) :
    withStatement node (nodes ++ others) = withStatement node nodes ++ others := by
  cases node <;> rfl

/-- Behind a statement there is another one behind a semicolon, or the statements end. -/
def moreStatements (g : Grammar) (fuel : Nat) (nodes : List Node) : Parser (List Node) := do
  if ← Parser.tryExact ";" then Parser.statementItems g fuel nodes else return nodes.reverse

theorem statementItems_succ (fuel : Nat) (nodes : List Node) :
    Parser.statementItems g (fuel + 1) nodes = (do
      let node ← Parser.statement g
      Parser.skipSpaces
      moreStatements g fuel (withStatement node nodes)) :=
  rfl

theorem moreStatements_of_semicolon {c : Cursor} (hmore : c.startsWith ";" = true) (fuel : Nat)
    (nodes : List Node) (ctx : Context) :
    moreStatements g fuel nodes ctx c = Parser.statementItems g fuel nodes ctx (c.skip 1) := by
  simp only [moreStatements, Parser.bind_apply, Parser.tryExact, hmore, if_true]
  rfl

theorem moreStatements_of_end {c : Cursor} (hmore : c.startsWith ";" = false) (fuel : Nat)
    (nodes : List Node) (ctx : Context) : moreStatements g fuel nodes ctx c = .ok nodes.reverse c := by
  simp only [moreStatements, Parser.bind_apply, Parser.tryExact, hmore]
  rfl

/-- Reading in the longer line comes to the place where the statements of the line end, with the same statements; `before` are those it came with. -/
theorem statementItems_reaches (hg : g.Repeats m line h) {k : Nat} {nodes result : List Node}
    {ctx : Context} {c c' : Cursor} (hc : c.IsIn line)
    (hshort : Parser.statementItems g k nodes ctx c = .ok result c') (ctx' : Context)
    (before : List Node) (k' : Nat) :
    Parser.statementItems h k' (nodes ++ before) ctx' (c.placed m) = .exhausted ∨
      c'.IsIn line ∧ ∃ fuel, Parser.statementItems h k' (nodes ++ before) ctx' (c.placed m) =
        moreStatements h fuel (result.reverse ++ before) ctx' (c'.placed m) := by
  induction k generalizing nodes c k' with
  | zero => cases hshort
  | succ k ih =>
    cases k' with
    | zero => exact .inl rfl
    | succ k' =>
      rw [statementItems_succ, Parser.bind_apply] at hshort ⊢
      have hstatement := repeats_statement hg ctx ctx' c hc
      generalize Parser.statement g ctx c = r at hstatement hshort
      generalize Parser.statement h ctx' (c.placed m) = r' at hstatement
      cases hstatement with
      | givesUp => exact .inl rfl
      | error => cases hshort
      | excused => cases hshort
      | gaveUp => cases hshort
      | @ok node c₁ hc₁ =>
        simp only [Parser.bind_apply, Parser.skipSpaces, Parser.move, withStatement_append,
          Cursor.skipSpaces_placed] at hshort ⊢
        cases hmore : c₁.skipSpaces.startsWith ";" with
        | true =>
          have hone : 1 ≤ c₁.skipSpaces.rest.length := Cursor.length_of_startsWith ";" hmore
          have hlong := Cursor.startsWith_placed_of_startsWith (m := m) hmore
          rw [moreStatements_of_semicolon hmore] at hshort
          rw [moreStatements_of_semicolon hlong, Cursor.skip_placed hone]
          exact ih (hc₁.skipSpaces.skip 1) hshort k'
        | false =>
          rw [moreStatements_of_end hmore] at hshort
          cases hshort
          rw [List.reverse_reverse]
          exact .inr ⟨hc₁.skipSpaces, k', rfl⟩

theorem statements_eq_ok {ctx : Context} {c c' : Cursor} {node : Node}
    (hreads : Parser.statements g ctx c = .ok node c') :
    ∃ nodes, Parser.statementItems g (c.rest.length + 1) [] ctx c = .ok nodes c' ∧
      node = Node.ofStatements nodes := by
  simp only [Parser.statements, Parser.bind_apply, Parser.look] at hreads
  split at hreads
  · rename_i nodes c₁ hitems
    cases hreads
    exact ⟨nodes, hitems, rfl⟩
  · cases hreads
  · cases hreads

theorem statements_of_items {ctx : Context} {c c' : Cursor} {nodes : List Node}
    (hitems : Parser.statementItems g (c.rest.length + 1) [] ctx c = .ok nodes c') :
    Parser.statements g ctx c = .ok (Node.ofStatements nodes) c' := by
  simp only [Parser.statements, Parser.bind_apply, Parser.look, hitems]
  rfl

theorem statements_of_gaveUp {ctx : Context} {c : Cursor}
    (hitems : Parser.statementItems g (c.rest.length + 1) [] ctx c = .exhausted) :
    Parser.statements g ctx c = .exhausted := by
  simp only [Parser.statements, Parser.bind_apply, Parser.look, hitems]

theorem repeatsInside_statements (hg : g.Repeats m line h) :
    RepeatsInside m line (Parser.statements g) (Parser.statements h) := by
  intro ctx ctx' c node c' hc hreads hrest
  obtain ⟨nodes, hitems, rfl⟩ := statements_eq_ok hreads
  have hend := (statementItems_ends hitems).2
  have hlong : (c'.placed m).startsWith ";" = false := by
    obtain ⟨pos, rest⟩ := c'
    cases rest with
    | nil => exact absurd rfl hrest
    | cons first rest => exact hend
  obtain hgave | ⟨hc', fuel, hreaches⟩ :=
    statementItems_reaches hg hc hitems ctx' [] ((c.placed m).rest.length + 1)
  · rw [List.append_nil] at hgave
    rw [statements_of_gaveUp hgave]
    exact .givesUp
  · rw [moreStatements_of_end hlong, List.append_nil, List.append_nil, List.reverse_reverse] at hreaches
    rw [statements_of_items hreaches]
    exact .ok hc'

/-! ### Closed quotations -/

/-- Reads `p`, but gives up the whole reading at a quotation that is not closed. -/
def Parser.closing (p : Parser Node) : Parser Node := fun ctx c =>
  match p ctx c with
  | .error e => if e.problem = .expected "\"" then .exhausted else .error e
  | reply => reply

/-- The parsers for nested parts that do not go back from a quotation that is not closed. -/
def Grammar.closingOfDepth : Nat → Grammar
  | 0 => Grammar.ofDepth 0
  | depth + 1 =>
    let g := Grammar.closingOfDepth depth
    { expression := Parser.closing (Parser.expression g)
      binary := Parser.binary g
      unary := Parser.unary g
      statement := Parser.statement g
      statements := Parser.statements g }

/-- No value of the line is tried as an expression that leaves a quotation open: to give up there would make no difference. -/
def ClosesQuotations (line : String) : Prop :=
  (Grammar.closingOfDepth (depthFor (stripComment line))).statements ⟨stripComment line, []⟩
    (.start (stripComment line).toList) = lineStatements line

theorem Repeats.closing {p q : Parser Node} (hp : Repeats m line .unclosed p q) :
    Repeats m line .none (Parser.closing p) q := by
  intro ctx ctx' c hc
  have hreply := hp ctx ctx' c hc
  rw [Parser.closing]
  generalize p ctx c = r at hreply
  generalize q ctx' (c.placed m) = r' at hreply
  cases hreply with
  | ok hc => exact .ok hc
  | error =>
    dsimp only
    split
    · exact .gaveUp
    · exact .error
  | excused he =>
    dsimp only
    rw [if_pos he.2]
    exact .gaveUp
  | gaveUp => exact .gaveUp
  | givesUp => exact .givesUp

theorem Grammar.Repeats.zero (hh : ∀ line, h.StaysIn line) : (Grammar.ofDepth 0).Repeats m line h where
  expression _ _ _ _ := .gaveUp
  binary _ _ _ _ _ := .gaveUp
  unary _ _ _ _ := .gaveUp
  statement _ _ _ _ := .gaveUp
  statements := nofun
  staysIn := hh

theorem Grammar.Repeats.toZero : g.Repeats m line (Grammar.ofDepth 0) where
  expression _ _ _ _ := .givesUp
  binary _ _ _ _ _ := .givesUp
  unary _ _ _ _ := .givesUp
  statement _ _ _ _ := .givesUp
  statements _ _ _ _ _ _ _ _ := .givesUp
  staysIn _ := staysIn_ofDepth 0

theorem Grammar.Repeats.succ {depth : Nat} {expression : Parser Node}
    (hg : g.Repeats m line (Grammar.ofDepth depth))
    (hexpression : Language.Repeats m line .none expression (Parser.expression (Grammar.ofDepth depth))) :
    Grammar.Repeats m line
      { expression := expression
        binary := Parser.binary g
        unary := Parser.unary g
        statement := Parser.statement g
        statements := Parser.statements g }
      (Grammar.ofDepth (depth + 1)) where
  expression := hexpression
  binary := repeats_binary hg
  unary := repeats_unary hg
  statement := repeats_statement hg
  statements := repeatsInside_statements hg
  staysIn _ := staysIn_ofDepth (depth + 1)

theorem repeats_ofDepth (hmark : '"' ∉ m.after) (depth depth' : Nat) :
    (Grammar.ofDepth depth).Repeats m line (Grammar.ofDepth depth') := by
  induction depth generalizing depth' with
  | zero => exact .zero fun _ => staysIn_ofDepth depth'
  | succ depth ih =>
    cases depth' with
    | zero => exact .toZero
    | succ depth' => exact (ih depth').succ ((repeats_expression (ih depth')).unmarked hmark)

theorem repeats_closingOfDepth (depth depth' : Nat) :
    (Grammar.closingOfDepth depth).Repeats m line (Grammar.ofDepth depth') := by
  induction depth generalizing depth' with
  | zero => exact .zero fun _ => staysIn_ofDepth depth'
  | succ depth ih =>
    cases depth' with
    | zero => exact .toZero
    | succ depth' => exact (ih depth').succ (repeats_expression (ih depth')).closing

/-! ### Lines put together -/

def statementsOf : Node → List Node
  | .nop => []
  | .sequence nodes => nodes
  | node => [node]

theorem statementsOf_ofStatements {nodes : List Node} (hnodes : ∀ node ∈ nodes, node.isSingle) :
    statementsOf (Node.ofStatements nodes) = nodes := by
  match nodes with
  | [] => rfl
  | [node] =>
    have hnode : node.isSingle := hnodes node List.mem_cons_self
    cases node with
    | nop => cases hnode
    | sequence statements => cases hnode
    | _ => rfl
  | _ :: _ :: _ => rfl

/-- The line is accepted as `node`, and all of it is read. -/
structure ReadsWhole (line : String) (node : Node) : Prop where
  accepted : parse line = .ok node
  toEnd : ∃ read, ReadsUpTo line node read []

theorem commentless_eq_self {text : List Char} (h : ¬['/', '/'] <:+: text) : commentless text = text := by
  induction text with
  | nil => rfl
  | cons c cs ih =>
    have hcs : ¬['/', '/'] <:+: cs := fun hinside => h (hinside.trans (List.suffix_cons c cs).isInfix)
    rw [commentless_cons, ih hcs]
    rintro ⟨rfl, hhead⟩
    obtain ⟨rest, rfl⟩ := List.head?_eq_some_iff.1 hhead
    exact h ⟨[], rest, rfl⟩

theorem no_comment_of_not_mem {text : List Char} (h : '/' ∉ text) : ¬['/', '/'] <:+: text :=
  fun hinside => h (hinside.subset List.mem_cons_self)

theorem stripComment_eq_self {line : String} (h : ¬['/', '/'] <:+: line.toList) : stripComment line = line := by
  rw [stripComment, commentless_eq_self h, String.ofList_toList]

theorem stripComment_join {a b : String} (ha : ¬['/', '/'] <:+: a.toList) (hb : ¬['/', '/'] <:+: b.toList) :
    stripComment (a ++ ";" ++ b) = a ++ ";" ++ b := by
  have hfirst := uncommented_concat (c := ';') (by decide) ha b.toList
  rw [commentless_eq_self hb] at hfirst
  have hlist : (a ++ ";" ++ b).toList = a.toList ++ [';'] ++ b.toList := by
    rw [String.toList_append, String.toList_append]
    rfl
  rw [stripComment, hlist, hfirst, ← hlist, String.ofList_toList]

theorem ReadsWhole.reads {line : String} {node : Node} (hline : ¬['/', '/'] <:+: line.toList)
    (h : ReadsWhole line node) : lineStatements line = .ok node ⟨line.toList.length, []⟩ := by
  obtain ⟨read, hsplit, c, hreads, hskip⟩ := h.toEnd
  rw [stripComment_eq_self hline, List.append_nil] at hsplit
  rw [hreads, ← (statements_ends hreads).1, hskip, hsplit]

theorem readsWhole_of_reads {line : String} {node : Node} (hline : stripComment line = line)
    (h : lineStatements line = .ok node ⟨line.toList.length, []⟩) : ReadsWhole line node where
  accepted := parse_eq_ok_iff.2 ⟨_, h, rfl⟩
  toEnd := ⟨line.toList, by rw [hline, List.append_nil], _, h, rfl⟩

/-- The first line stands at the start of both, with the semicolon and the second line behind it. -/
def Embedding.first (b : List Char) : Embedding := ⟨0, ';' :: b, fun _ hch => (Option.some.inj hch).symm⟩

/-- The second line stands at the end of both. -/
def Embedding.second (a : List Char) : Embedding := ⟨a.length + 1, [], nofun⟩

/-- The statements of two lines, read alone by `g` and `g'` and together by `h`. -/
theorem statementItems_join {g' : Grammar} {a b : List Char} {k₁ k₂ : Nat} {xs ys : List Node}
    {ctx₁ ctx₂ : Context}
    (hg : g.Repeats (.first b) a h) (hg' : g'.Repeats (.second a) b h)
    (ha : Parser.statementItems g k₁ [] ctx₁ (.start a) = .ok xs ⟨a.length, []⟩)
    (hb : Parser.statementItems g' k₂ [] ctx₂ (.start b) = .ok ys ⟨b.length, []⟩) (ctx : Context) (k : Nat) :
    Parser.statementItems h k [] ctx (.start (a ++ ';' :: b)) = .exhausted ∨
      Parser.statementItems h k [] ctx (.start (a ++ ';' :: b)) =
        .ok (xs ++ ys) ⟨(a ++ ';' :: b).length, []⟩ := by
  have hstart : (Cursor.start a).placed (.first b) = .start (a ++ ';' :: b) := rfl
  have hsemicolon : ((⟨a.length, []⟩ : Cursor).placed (.first b)).startsWith ";" = true := rfl
  have hbehind : ((⟨a.length, []⟩ : Cursor).placed (.first b)).skip 1 = (Cursor.start b).placed (.second a) := by
    simp [Cursor.placed, Cursor.skip, Cursor.start, Embedding.first, Embedding.second]
  have hend : (⟨b.length, []⟩ : Cursor).placed (.second a) = ⟨(a ++ ';' :: b).length, []⟩ := by
    simp only [Cursor.placed, Embedding.second, List.append_nil, List.length_append, List.length_cons]
    congr 1
    omega
  obtain hgave | ⟨-, fuel, hreaches⟩ := statementItems_reaches hg (.atStart a) ha ctx [] k
  · exact .inl hgave
  rw [moreStatements_of_semicolon hsemicolon, hbehind, List.append_nil, List.append_nil] at hreaches
  obtain hgave | ⟨-, fuel', hreaches'⟩ := statementItems_reaches hg' (.atStart b) hb ctx xs.reverse fuel
  · exact .inl (hreaches.trans hgave)
  rw [hend, moreStatements_of_end rfl, ← List.reverse_append, List.reverse_reverse] at hreaches'
  exact .inr (hreaches.trans hreaches')

/-- Two lines without comments that are read to their ends can be put together with a semicolon: the result is read to its end, as the statements of the one and then those of the other. Where the second line has a quotation mark, the values of the first one must leave no quotation open. -/
theorem readsWhole_join {a b : String} {x y : Node} (ha : ¬['/', '/'] <:+: a.toList)
    (hb : ¬['/', '/'] <:+: b.toList) (hx : ReadsWhole a x) (hy : ReadsWhole b y)
    (hquotations : '"' ∈ b.toList → ClosesQuotations a) :
    ReadsWhole (a ++ ";" ++ b) (Node.ofStatements (statementsOf x ++ statementsOf y)) := by
  have hline : (a ++ ";" ++ b).toList = a.toList ++ ';' :: b.toList := by
    rw [String.toList_append, String.toList_append, List.append_assoc]
    rfl
  refine readsWhole_of_reads (stripComment_join ha hb) ?_
  have hends := lineStatements_ne_exhausted (a ++ ";" ++ b)
  rw [lineStatements, stripComment_join ha hb, hline] at hends ⊢
  -- The first line may be read by the grammar that gives up at an open quotation.
  obtain ⟨g, hg, hreads⟩ : ∃ g : Grammar,
      (∀ depth, g.Repeats (.first b.toList) a.toList (Grammar.ofDepth depth)) ∧
      Parser.statements g ⟨a, []⟩ (.start a.toList) = .ok x ⟨a.toList.length, []⟩ := by
    have hplain := hx.reads ha
    by_cases hmark : '"' ∈ b.toList
    · refine ⟨Grammar.closingOfDepth (a.length + 1), fun depth => repeats_closingOfDepth _ depth, ?_⟩
      have hcloses := (hquotations hmark).trans hplain
      rwa [stripComment_eq_self ha] at hcloses
    · refine ⟨Grammar.ofDepth (a.length + 1), fun depth => repeats_ofDepth ?_ _ depth, ?_⟩
      · exact fun hmem => hmark ((List.mem_cons.1 hmem).resolve_left (by decide))
      · rwa [lineStatements, stripComment_eq_self ha] at hplain
  have hreads' := hy.reads hb
  rw [lineStatements, stripComment_eq_self hb] at hreads'
  obtain ⟨xs, hxs, rfl⟩ := statements_eq_ok hreads
  obtain ⟨ys, hys, rfl⟩ := statements_eq_ok hreads'
  rw [statementsOf_ofStatements (isSingle_statementItems _ _ _ _ _ _ hxs),
    statementsOf_ofStatements (isSingle_statementItems _ _ _ _ _ _ hys)]
  obtain hgave | hjoined := statementItems_join (hg ((a ++ ";" ++ b).length + 1))
    (repeats_ofDepth List.not_mem_nil _ _) hxs hys
    ⟨a ++ ";" ++ b, []⟩ ((a.toList ++ ';' :: b.toList).length + 1)
  · exact absurd (statements_of_gaveUp hgave) hends
  · exact statements_of_items hjoined

/-- Quotations on both sides, one with a semicolon in it. -/
theorem readsWhole_join_quotations :
    ReadsWhole "print \"a;b\"" (.print (Node.text "a;b")) ∧
    ReadsWhole ".var:x=\"c\";pwd" (.sequence [.assign "x" (Node.text "c"), .printDir]) ∧
    ClosesQuotations "print \"a;b\"" ∧
    ReadsWhole ("print \"a;b\"" ++ ";" ++ ".var:x=\"c\";pwd")
      (.sequence [.print (Node.text "a;b"), .assign "x" (Node.text "c"), .printDir]) := by
  have hx : ReadsWhole "print \"a;b\"" (.print (Node.text "a;b")) := readsWhole_of_reads (by rfl) (by rfl)
  have hy : ReadsWhole ".var:x=\"c\";pwd" (.sequence [.assign "x" (Node.text "c"), .printDir]) :=
    readsWhole_of_reads (by rfl) (by rfl)
  have hcloses : ClosesQuotations "print \"a;b\"" := by
    rw [ClosesQuotations, hx.reads (no_comment_of_not_mem (by decide))]
    rfl
  have hjoined := readsWhole_join (no_comment_of_not_mem (by decide)) (no_comment_of_not_mem (by decide)) hx hy
    fun _ => hcloses
  exact ⟨hx, hy, hcloses, hjoined⟩

/-- Alone, the value of the first line is text, because its quotation is not closed. Behind the semicolon there is a quotation mark, so in both lines together the value is an expression, and the second command is part of a quotation. -/
theorem quotation_over_semicolon :
    ¬['/', '/'] <:+: ".var:x=1+\"abc".toList ∧ ¬['/', '/'] <:+: "print y\"".toList ∧
    ReadsWhole ".var:x=1+\"abc" (.assign "x" (Node.text "1+\"abc")) ∧
    ReadsWhole "print y\"" (.print (Node.text "y\"")) ∧
    parse (".var:x=1+\"abc" ++ ";" ++ "print y\"") =
      .ok (.assign "x" (.binary (.arith .add) (.literal (.int 1)) (Node.text "abc;print y"))) ∧
    parse (".var:x=1+\"abc" ++ ";" ++ "print y\"") ≠
      .ok (Node.ofStatements (statementsOf (.assign "x" (Node.text "1+\"abc")) ++
        statementsOf (.print (Node.text "y\"")))) := by
  have hjoined : parse (".var:x=1+\"abc" ++ ";" ++ "print y\"") =
      .ok (.assign "x" (.binary (.arith .add) (.literal (.int 1)) (Node.text "abc;print y"))) := by
    rfl
  refine ⟨no_comment_of_not_mem (by decide), no_comment_of_not_mem (by decide), ?_, ?_, hjoined, ?_⟩
  · exact readsWhole_of_reads (by rfl) (by rfl)
  · exact readsWhole_of_reads (by rfl) (by rfl)
  rw [hjoined]
  nofun

end TwinShell.Language
