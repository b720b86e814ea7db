import TwinShell.Proofs.Language.Keywords

/-!
# Written statements read back

Every rule ends where the statement does: before a semicolon, a closing brace, a closing parenthesis or at the end of the line. Nested statements stand between braces or parentheses, so the length of the text again bounds the depth. The induction goes over the statements of the core language; for a condition it also says what is read behind an `elif`.
-/

namespace TwinShell.Language

open TwinShell.Language.Parser (statement statements afterKeyword)

variable {depth : Nat} {text rest : List Char} {e node : Node}

/-! ### Parts of statements -/

/-- A condition with blanks around it, before a body. -/
theorem Readable.beforeBody (h : Readable depth e) :
    Reads (Parser.expression (.ofDepth depth)) (expressionText e ++ [' ']) e ('\x7b' :: rest) :=
  h.expression [' '] isSpaceOrTab_of_mem (.block rest) rfl

theorem Readable.condition (h : Readable depth e) :
    Reads (Parser.expression (.ofDepth depth)) (' ' :: (expressionText e ++ [' '])) e
      ('\x7b' :: rest) :=
  Reads.space Parser.expression_space h.beforeBody

/-- A body between braces. -/
theorem reads_body (blanks : List Char) (hblanks : ∀ c ∈ blanks, Text.isSpaceOrTab c)
    (h : Reads (statements (.ofDepth depth)) text node ('\x7d' :: rest)) :
    Reads (Parser.body (.ofDepth (depth + 1))) (blanks ++ blockText text) node rest := by
  refine Reads.traced "body" ?_
  refine (Reads.skipSpaces hblanks rfl).bind ?_
  refine (Reads.expect "\x7b" _).bind (t := text ++ ['\x7d']) ?_
  refine h.bind ?_
  refine Reads.bindNil (Reads.skipNoSpaces rfl) ?_
  exact (Reads.expect "\x7d" rest).bindPure rfl

/-- A condition and the body that it guards, for a rule that goes on with `f`. -/
theorem reads_guarded {α : Type} {name : String} {more : List Char} {f : Node → Node → Parser α}
    {a : α} (he : Readable depth e)
    (hbody : ∀ {rest}, Reads (statements (.ofDepth depth)) text node ('\x7d' :: rest))
    (hf : Reads (f e node) more a rest) :
    Reads (do
        let condition ← Parser.traced name (Grammar.ofDepth (depth + 1)).expression
        let body ← Parser.body (.ofDepth (depth + 1))
        f condition body)
      (guardedText (expressionText e) text ++ more) a rest := by
  have htext : guardedText (expressionText e) text ++ more =
      ' ' :: (expressionText e ++ [' ']) ++ (blockText text ++ more) := by simp [guardedText]
  rw [htext]
  refine (he.condition.traced name).bind ?_
  exact (reads_body [] (by simp) hbody).bind hf

/-! ### Text -/

/-- The characters that stand for themselves in the given mode. -/
def TextMode.isText (mode : TextMode) (c : Char) : Bool := c != '$' && !mode.stops.toList.contains c

section Text

variable {mode : TextMode} {g : Grammar} {fuel : Nat} {pieces : Parser.TextPieces}

theorem token_end (hdollar : rest.head? ≠ some '$') (hrest : headAvoids mode.isText rest) (pos : Nat) :
    mode.token ⟨pos, rest⟩ = (⟨.eof, "eof", pos⟩, ⟨pos, rest⟩) := by
  have hlast : Cursor.skipWhile (fun c => c != '$' && !mode.stops.toList.contains c) ⟨pos, rest⟩ = _ :=
    Cursor.skipWhile_of_headAvoids pos hrest
  simp only [TextMode.token, Cursor.textToken, Cursor.peek?, if_neg hdollar, Cursor.textFrom, hlast,
    if_true, Cursor.emitEof]

/-- A run of characters that stand for themselves is one token. -/
theorem token_run {run more : List Char} (hne : run ≠ []) (hrun : ∀ c ∈ run, mode.isText c)
    (hmore : headAvoids mode.isText more) (pos : Nat) :
    mode.token ⟨pos, run ++ more⟩ = (⟨.text, String.ofList run, pos⟩, ⟨pos + run.length, more⟩) := by
  have hpeek : Cursor.peek? ⟨pos, run ++ more⟩ ≠ some '$' := by
    obtain ⟨c, cs, rfl⟩ := List.exists_cons_of_ne_nil hne
    have hc := hrun c List.mem_cons_self
    rw [TextMode.isText, Bool.and_eq_true, bne_iff_ne] at hc
    simpa [Cursor.peek?] using hc.1
  have hlast : Cursor.skipWhile (fun c => c != '$' && !mode.stops.toList.contains c) ⟨pos, run ++ more⟩ = _ :=
    Cursor.skipWhile_append pos hrun hmore
  have hmoved : pos + run.length ≠ pos := by
    have := List.length_pos_iff.2 hne
    omega
  simp only [TextMode.token, Cursor.textToken, if_neg hpeek, Cursor.textFrom, hlast, if_neg hmoved,
    Cursor.emit, Cursor.textSince, Cursor.charsSince_append]

theorem textPieces_end (hdollar : rest.head? ≠ some '$') (hrest : headAvoids mode.isText rest)
    (ctx : Context) (pos : Nat) :
    Parser.textPieces g mode (fuel + 1) pieces ctx ⟨pos, rest⟩ = .ok pieces ⟨pos, rest⟩ := by
  simp only [Parser.textPieces, Parser.bind_apply, Parser.reading, token_end hdollar hrest]
  rfl

theorem textPieces_run {run more : List Char} (hne : run ≠ []) (hrun : ∀ c ∈ run, mode.isText c)
    (hmore : headAvoids mode.isText more) (ctx : Context) (pos : Nat) :
    Parser.textPieces g mode (fuel + 1) pieces ctx ⟨pos, run ++ more⟩ =
      Parser.textPieces g mode fuel (pieces.addText run) ctx ⟨pos + run.length, more⟩ := by
  simp only [Parser.textPieces, Parser.bind_apply, Parser.reading, token_run hne hrun hmore,
    String.toList_ofList]

theorem reads_plainPieces (htext : ∀ c ∈ text, mode.isText c) (hdollar : rest.head? ≠ some '$')
    (hrest : headAvoids mode.isText rest) (hfuel : text.length < fuel) :
    Reads (Parser.textPieces g mode fuel {}) text (Parser.TextPieces.addText {} text) rest := by
  intro ctx pos
  by_cases hne : text = []
  · obtain ⟨fuel, rfl⟩ : ∃ n, fuel = n + 1 := ⟨fuel - 1, by omega⟩
    rw [hne, List.nil_append, textPieces_end hdollar hrest]
    rfl
  · have hlength := List.length_pos_iff.2 hne
    obtain ⟨fuel, rfl⟩ : ∃ n, fuel = n + 2 := ⟨fuel - 2, by omega⟩
    rw [textPieces_run hne htext hrest, textPieces_end hdollar hrest]

/-- A text without references is a literal. -/
theorem reads_plainText {text : String} {trim : Bool} (htext : ∀ c ∈ text.toList, mode.isText c)
    (hdollar : rest.head? ≠ some '$') (hrest : headAvoids mode.isText rest)
    (htrim : trim → Text.trimChars Text.isSpaceOrTab text.toList = text.toList) :
    Reads (Parser.textNode g mode trim) text.toList (.text text) rest := by
  intro ctx pos
  have hfuel : text.toList.length < (text.toList ++ rest).length + 1 := by
    rw [List.length_append]
    omega
  have hpieces := (reads_plainPieces (g := g) htext hdollar hrest hfuel) ctx pos
  have hnode : Parser.TextPieces.toNode (Parser.TextPieces.addText {} text.toList) trim = .text text := by
    cases trim with
    | false => simp [Parser.TextPieces.toNode, Parser.TextPieces.addText]
    | true => simp [Parser.TextPieces.toNode, Parser.TextPieces.addText, htrim rfl]
  simp only [Parser.textNode, Parser.bind_apply, Parser.look, hpieces]
  rw [hnode]
  rfl

theorem isText_quoted (hquote : '"' ∉ text) (hdollar : '$' ∉ text) :
    ∀ c ∈ text, TextMode.quoted.isText c := by
  intro c hc
  have hquote : c ≠ '"' := fun h => hquote (h ▸ hc)
  have hdollar : c ≠ '$' := fun h => hdollar (h ▸ hc)
  simp [TextMode.isText, TextMode.stops, Cursor.quotedStops, hquote, hdollar]

end Text

/-- An operand on its own is an expression. -/
theorem reads_operand (h : Reads (Parser.unary (.ofDepth depth)) text node rest) (hrest : Stops rest) :
    Reads (Parser.expression (.ofDepth depth)) text node rest := by
  have hclimbs : Climbs (.ofDepth depth) 1 text node rest := Climbs.ofUnary h
  have hbinary := hclimbs.reads hrest.follow
  rw [← List.append_nil text]
  exact hbinary.bind (Reads.bindPure (Reads.skipNoSpaces hrest.avoids_space) rfl)

/-- What stands between quotes is an operand. -/
theorem reads_betweenQuotes
    (h : Reads (Parser.textNode (.ofDepth depth) .quoted false) text node ('"' :: rest))
    (hrest : Stops rest) :
    Reads (Parser.expression (.ofDepth depth)) ('"' :: (text ++ ['"'])) node rest := by
  have hprimary : Reads (Parser.primary (.ofDepth depth)) ('"' :: (text ++ ['"'])) node rest := by
    refine Reads.token (s := ['"']) (lexes_quote _) fun tok htok => ?_
    rw [htok]
    exact h.bind ((Reads.expect "\"" rest).bindPure rfl)
  refine reads_operand (Reads.unary (lexes_quote (text ++ ['"'] ++ rest)) rfl rfl hprimary) hrest

theorem reads_quoted {text : String} (htext : IsQuotable text) (hrest : Stops rest) :
    Reads (Parser.expression (.ofDepth depth)) ('"' :: (text.toList ++ ['"'])) (.text text) rest := by
  have hplain := isText_quoted htext.no_quote htext.no_reference
  exact reads_betweenQuotes (reads_plainText hplain (by simp) rfl nofun) hrest

/-! ### The rules -/

theorem reads_value (he : Readable depth e) (hrest : Stops rest) :
    Reads (Parser.value (.ofDepth (depth + 1))) ("eval ".toList ++ expressionText e) e rest := by
  refine Reads.traced "value" ?_
  refine Reads.bindNil (Reads.skipNoSpaces rfl) ?_
  exact (Reads.tryExact "eval " _).bind (he.expressionEnd hrest.follow hrest.avoids_space)

theorem IsName.exists_cons {name : String} (hname : IsName name) :
    ∃ c cs, name.toList = c :: cs ∧ Text.isNameChar c := by
  obtain ⟨c, cs, hcs⟩ := List.exists_cons_of_ne_nil fun h => hname.ne_empty (String.toList_inj.1 h)
  exact ⟨c, cs, hcs, hname.all_nameChar c (hcs ▸ List.mem_cons_self)⟩

/-- An assignment, whatever is read as its value. -/
theorem reads_assignment {g : Grammar} {name : String} {value : List Char} (hname : IsName name)
    (hvalue : Reads (Parser.value g) value node rest) :
    Reads (statement g) (".var:".toList ++ (name.toList ++ '=' :: value)) (.assign name node) rest := by
  obtain ⟨c, cs, hcs, -⟩ := hname.exists_cons
  refine reads_command (k := .assign) (by decide) rfl (by rw [hcs]; rfl)
    (fun h => absurd h (by decide)) ?_
  have hword : Reads Parser.variableName name.toList name ('=' :: value ++ rest) := by
    have hword : Reads Parser.simpleWord _ name ('=' :: value ++ rest) :=
      reads_simpleWord [] [] hname (by simp) (by simp) rfl rfl
    rw [List.nil_append, List.append_nil] at hword
    exact (hword.traced "variable name").bindPure (if_neg hname.ne_empty)
  refine hword.bind ?_
  exact (Reads.expect "=" _).bind (hvalue.bindPure rfl)

theorem reads_assign {name : String} (hname : IsName name) (he : Readable depth e)
    (hrest : Stops rest) :
    Reads (statement (.ofDepth (depth + 1))) (statementText (.assign name e)) (.assign name e)
      rest := by
  rw [statementText]
  exact reads_assignment hname (reads_value he hrest)

theorem reads_print {text : String} (htext : IsQuotable text) (hrest : Stops rest) :
    Reads (statement (.ofDepth (depth + 1))) (statementText (.print (.text text)))
      (.print (.text text)) rest := by
  have heq : statementText (.print (.text text)) =
      "print".toList ++ ([' '] ++ '"' :: (text.toList ++ ['"'])) := by
    rw [Node.text, statementText]
    simp
  rw [heq]
  refine reads_command (k := .print) (by decide) rfl rfl (fun _ => by rintro _ ⟨⟩; decide) ?_
  refine Reads.bindPure (Reads.traced "" ?_) rfl
  refine (Reads.skipSpace rfl).bind ?_
  exact Reads.bindNil (a := true) (Reads.look fun pos => rfl) (reads_quoted htext hrest)

theorem reads_printDir (hrest : Stops rest) :
    Reads (statement (.ofDepth depth)) (statementText .printDir) .printDir rest := by
  rw [statementText, ← List.append_nil "pwd".toList]
  exact reads_command (k := .printDir) (by decide) rfl (by cases rest <;> rfl)
    (fun _ => hrest.setOff) (Reads.pure _ rest)

theorem reads_exit (hrest : Stops rest) :
    Reads (statement (.ofDepth depth)) (statementText .exit) .exit rest := by
  rw [statementText, ← List.append_nil "exit".toList]
  exact reads_command (k := .exit) (by decide) rfl (by cases rest <;> rfl)
    (fun _ => hrest.setOff) (Reads.pure _ rest)

theorem reads_nop (hrest : Stops rest) : Reads (statement (.ofDepth depth)) [] .nop rest :=
  Reads.traced "command" (hrest.commandEnds.bindPure rfl)

/-- A text that starts with a blank sets off the word before it. -/
theorem setOff_space (cs : List Char) : SetOff (' ' :: cs) := by
  rintro _ ⟨⟩
  decide

/-- At this depth of nesting, the text of a body is read back. -/
def BodyReads (depth : Nat) (node : Node) : Prop :=
  ∀ {rest}, Reads (statements (.ofDepth depth)) (statementText node) node ('\x7d' :: rest)

theorem reads_defineAlias {name : String} (hname : IsName name) (hbody : BodyReads depth node) :
    Reads (statement (.ofDepth (depth + 1))) (statementText (.defineAlias name node))
      (.defineAlias name node) rest := by
  have heq : statementText (.defineAlias name node) =
      "alias".toList ++ ([' '] ++ (name.toList ++ [' ']) ++ blockText (statementText node)) := by
    rw [statementText]
    simp
  rw [heq]
  refine reads_command (k := .defineAlias) (by decide) rfl rfl (fun _ => setOff_space _) ?_
  have hword : Reads Parser.simpleWord _ name (blockText (statementText node) ++ rest) :=
    reads_simpleWord [' '] [' '] hname isSpaceOrTab_of_mem isSpaceOrTab_of_mem rfl rfl
  refine (hword.traced "alias name").bind ?_
  rw [if_neg hname.ne_empty]
  exact (reads_body [] (by simp) hbody).bindPure rfl

theorem reads_whileLoop (he : Readable depth e) (hbody : BodyReads depth node) :
    Reads (statement (.ofDepth (depth + 1))) (statementText (.whileLoop e node))
      (.whileLoop e node) rest := by
  rw [statementText, ← List.append_nil (guardedText _ _)]
  refine reads_command (k := .whileLoop) (by decide) rfl rfl (fun _ => setOff_space _) ?_
  exact reads_guarded he hbody (Reads.pure _ rest)

/-- What a loop over values reads behind its `in`. -/
def loopValues (g : Grammar) (name : String) : Parser Node := do
  let first ← g.expression
  if ← Parser.tryExact ".." then
    let last ← Parser.traced "range end" g.expression
    return .forRange name first last (← Parser.body g)
  else return .forEach name first (← Parser.body g)

theorem reads_loop {g : Grammar} {name : String} (hname : IsName name)
    (h : Reads (loopValues g name) (' ' :: text) node rest) :
    Reads (statement g) ("for ".toList ++ (name.toList ++ (" in ".toList ++ text))) node rest := by
  have heq : "for ".toList ++ (name.toList ++ (" in ".toList ++ text)) =
      "for".toList ++ ([' '] ++ (([] ++ (name.toList ++ [' '])) ++ ("in".toList ++ ' ' :: text))) := by
    simp
  rw [heq]
  obtain ⟨c, cs, hcs, hc⟩ := hname.exists_cons
  refine reads_command (k := .forLoop) (by decide) rfl rfl (fun _ => setOff_space _) ?_
  have hblank : Text.isSpaceOrTab c = false := not_space_of_isNameChar hc
  have hparen : '(' ≠ c := by rintro rfl; exact absurd hc (by decide)
  refine (Reads.skipSpace (by simp [hcs, headAvoids, hblank])).bind ?_
  refine Reads.bindNil (Reads.tryExact_false (by simp [hcs, List.isPrefixOf, hparen])) ?_
  have hword : Reads Parser.simpleWord _ name ("in".toList ++ ' ' :: text ++ rest) :=
    reads_simpleWord [] [' '] hname (by simp) isSpaceOrTab_of_mem rfl rfl
  refine (hword.traced "loop variable").bind ?_
  rw [if_neg hname.ne_empty]
  refine (Reads.tryExact "in" _).bind ?_
  exact Reads.bindNil (a := false) (Reads.look fun pos => rfl) h

theorem reads_forRange {name : String} {last : Node} (hname : IsName name) (he : Readable depth e)
    (hlast : Readable depth last) (hbody : BodyReads depth node) :
    Reads (statement (.ofDepth (depth + 1))) (statementText (.forRange name e last node))
      (.forRange name e last node) rest := by
  rw [statementText]
  refine reads_loop hname ?_
  have htext : expressionText last ++ ' ' :: blockText (statementText node) =
      (expressionText last ++ [' ']) ++ blockText (statementText node) := by simp
  rw [htext]
  refine Reads.bind (s := ' ' :: expressionText e)
    (Reads.space Parser.expression_space (he.expressionEnd (.range _) rfl)) ?_
  refine (Reads.tryExact ".." _).bind ?_
  refine (hlast.beforeBody.traced "range end").bind ?_
  exact (reads_body [] (by simp) hbody).bindPure rfl

theorem reads_forEach {name : String} (hname : IsName name) (he : Readable depth e)
    (hbody : BodyReads depth node) :
    Reads (statement (.ofDepth (depth + 1))) (statementText (.forEach name e node))
      (.forEach name e node) rest := by
  have heq : statementText (.forEach name e node) = "for ".toList ++ (name.toList ++ (" in ".toList ++
      (expressionText e ++ [' '] ++ blockText (statementText node)))) := by
    rw [statementText]
    simp [guardedText]
  rw [heq]
  refine reads_loop hname ?_
  refine Reads.bind (s := ' ' :: (expressionText e ++ [' '])) he.condition ?_
  refine Reads.bindNil (Reads.tryExact_false rfl) ?_
  exact (reads_body [] (by simp) hbody).bindPure rfl

theorem reads_forLoop {init step : Node}
    (hinit : ∀ {rest}, Reads (statement (.ofDepth depth)) (statementText init) init (';' :: rest))
    (he : Readable depth e)
    (hstep : ∀ {rest}, Reads (statement (.ofDepth depth)) (statementText step) step (')' :: rest))
    (hbody : BodyReads depth node) :
    Reads (statement (.ofDepth (depth + 1))) (statementText (.forLoop init e step node))
      (.forLoop init e step node) rest := by
  rw [statementText]
  change Reads _ ("for".toList ++ ' ' :: '(' :: _) _ _
  refine reads_command (k := .forLoop) (by decide) rfl rfl (fun _ => setOff_space _) ?_
  refine (Reads.skipSpace rfl).bind ?_
  refine (Reads.tryExact "(" _).bind ?_
  refine hinit.bind ?_
  refine Reads.bindNil (Reads.skipNoSpaces rfl) ?_
  refine (Reads.expect ";" _).bind ?_
  refine ((he.expressionBefore (c := ';') (by decide)).traced "condition").bind ?_
  refine (Reads.expect ";" _).bind ?_
  refine hstep.bind ?_
  refine Reads.bindNil (Reads.skipNoSpaces rfl) ?_
  refine (Reads.expect ")" _).bind ?_
  exact (reads_body [' '] isSpaceOrTab_of_mem hbody).bindPure rfl

/-- What is read behind the body of a condition. -/
def alternatives (g : Grammar) (fuel : Nat) (condition body : Node) : Parser Node := do
  Parser.skipSpaces
  if ← Parser.tryExact "elif" then
    return .conditional condition body (some (← Parser.traced "elif" (Parser.conditional g fuel)))
  else if ← Parser.tryExact "else" then
    return .conditional condition body (some (← Parser.body g))
  else return .conditional condition body none

theorem reads_guardedChain {fuel : Nat} {more : List Char} {result : Node} (he : Readable depth e)
    (hbody : BodyReads depth node)
    (hmore : Reads (alternatives (.ofDepth (depth + 1)) fuel e node) more result rest) :
    Reads (Parser.conditional (.ofDepth (depth + 1)) (fuel + 1))
      (guardedText (expressionText e) (statementText node) ++ more) result rest :=
  reads_guarded he hbody hmore

theorem reads_noAlternative {g : Grammar} {fuel : Nat} (hrest : Stops rest) :
    Reads (alternatives g fuel e node) [] (.conditional e node none) rest := by
  have hword : ∀ {word : String} {c : Char} {cs : List Char}, word.toList = c :: cs →
      c ∉ [';', '\x7d', ')'] → word.toList.isPrefixOf rest = false := by
    intro word c cs hword hc
    cases hrest with
    | nil => rw [hword]; rfl
    | cons rest hd =>
      rw [hword, List.isPrefixOf, Bool.and_eq_false_iff, beq_eq_false_iff_ne]
      exact .inl fun h => hc (h ▸ hd)
  refine Reads.bindNil (Reads.skipNoSpaces hrest.avoids_space) ?_
  refine Reads.bindNil (Reads.tryExact_false (hword (show "elif".toList = 'e' :: _ from rfl) (by decide))) ?_
  exact Reads.bindNil (Reads.tryExact_false (hword (show "else".toList = 'e' :: _ from rfl) (by decide)))
    (Reads.pure _ rest)

theorem reads_elif {g : Grammar} {fuel : Nat} {other : Node}
    (h : Reads (Parser.conditional g fuel) text other rest) :
    Reads (alternatives g fuel e node) (" elif".toList ++ text) (.conditional e node (some other))
      rest := by
  refine (Reads.skipSpace rfl).bind (t := "elif".toList ++ text) ?_
  refine (Reads.tryExact "elif" _).bind ?_
  exact (h.traced "elif").bindPure rfl

theorem reads_else {fuel : Nat} {other : Node} (h : BodyReads depth other) :
    Reads (alternatives (.ofDepth (depth + 1)) fuel e node)
      (" else ".toList ++ blockText (statementText other)) (.conditional e node (some other)) rest := by
  refine (Reads.skipSpace rfl).bind (t := "else".toList ++ ([' '] ++ blockText (statementText other))) ?_
  refine Reads.bindNil (Reads.tryExact_false rfl) ?_
  refine (Reads.tryExact "else" _).bind ?_
  exact (reads_body [' '] isSpaceOrTab_of_mem h).bindPure rfl

/-- A condition in its own statement. -/
theorem reads_if {g : Grammar} {more : List Char}
    (h : ∀ {fuel}, (guardedText (expressionText e) text ++ more).length < fuel →
      Reads (Parser.conditional g fuel) (guardedText (expressionText e) text ++ more) node rest) :
    Reads (statement g) ("if".toList ++ (guardedText (expressionText e) text ++ more)) node rest := by
  refine reads_command (k := .conditional) (by decide) rfl rfl (fun _ => setOff_space _) ?_
  intro ctx pos
  refine h ?_ ctx pos
  simp only [List.length_append]
  omega

end TwinShell.Language
