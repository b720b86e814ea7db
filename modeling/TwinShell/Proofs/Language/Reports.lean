import TwinShell.Proofs.Language.Places

/-!
# Reports about a line

A parser that stops early reports the line, a place in it and the rules it was reading. `Upholds line p q` says that from every place in the line `q` answers what `p` answers, and that what they answer is about the line: a result ends at a place in it, a report points into it and names only rules with a name. A parser that gives up answers nothing, so a parser with a larger bound upholds the one with the smaller bound; a parser that upholds itself is one whose answers are about the line.
-/

namespace TwinShell.Language

variable {α β : Type} {line : String} {start : Cursor}

/-- The report is about the line: it shows the line, points into it, and every rule in its trail has a name. -/
structure SyntaxError.IsAbout (line : String) (e : SyntaxError) : Prop where
  input_eq : e.input = line
  position_le : e.position ≤ line.length
  trail_named : "" ∉ e.trail

/-- The surroundings are those of a parser that reads the line. -/
structure Context.IsAbout (line : String) (ctx : Context) : Prop where
  input_eq : ctx.input = line
  trail_named : "" ∉ ctx.trail

theorem Context.IsAbout.report {ctx : Context} (h : ctx.IsAbout line) {position : Nat}
    (hposition : position ≤ line.length) (problem : Problem) :
    SyntaxError.IsAbout line ⟨problem, position, ctx.trail, ctx.input⟩ :=
  ⟨h.input_eq, hposition, h.trail_named⟩

theorem Context.IsAbout.inRule {ctx : Context} (h : ctx.IsAbout line) {name : String} (hname : name ≠ "") :
    Context.IsAbout line { ctx with trail := ctx.trail ++ [name] } := by
  refine ⟨h.input_eq, fun hmem => ?_⟩
  rcases List.mem_append.1 hmem with hmem | hmem
  · exact h.trail_named hmem
  · exact hname (List.mem_singleton.1 hmem).symm

namespace Cursor

theorem IsIn.pos_le (h : start.IsIn line.toList) : start.pos ≤ line.length :=
  String.length_toList ▸ h.pos_le_length

/-- A token of an expression starts behind the blanks. -/
theorem start_expressionToken (c : Cursor) : c.expressionToken.1.start = c.skipSpaces.pos :=
  c.found_expressionToken.start_eq

end Cursor

/-! ### Replies and parsers -/

/-- The second reply says what the first one says, and it is about the line. Giving up says nothing. -/
inductive Upheld (line : String) : Reply α → Reply α → Prop where
  | ok {a : α} {c : Cursor} (hc : c.IsIn line.toList) : Upheld line (.ok a c) (.ok a c)
  | error {e : SyntaxError} (he : e.IsAbout line) : Upheld line (.error e) (.error e)
  | gaveUp {reply : Reply α} : Upheld line .exhausted reply

/-- From every place in the line, `q` answers what `p` answers. -/
def Upholds (line : String) (p q : Parser α) : Prop :=
  ∀ ctx c, ctx.IsAbout line → c.IsIn line.toList → Upheld line (p ctx c) (q ctx c)

namespace Upholds

variable {p q : Parser α} {f f' : α → Parser β}

theorem pure (a : α) : Upholds line (Pure.pure a) (Pure.pure a) := fun _ _ _ hc => .ok hc

theorem exhausted : Upholds line Parser.exhausted q := fun _ _ _ _ => .gaveUp

theorem fail (problem : Problem) : Upholds line (Parser.fail problem : Parser α) (Parser.fail problem) :=
  fun _ _ hctx hc => .error (hctx.report hc.pos_le problem)

theorem failAt {position : Nat} (hposition : position ≤ line.length) (problem : Problem) :
    Upholds line (Parser.failAt position problem : Parser α) (Parser.failAt position problem) :=
  fun _ _ hctx _ => .error (hctx.report hposition problem)

theorem bind (hp : Upholds line p q) (hf : ∀ a, Upholds line (f a) (f' a)) :
    Upholds line (p >>= f) (q >>= f') := by
  intro ctx c hctx hc
  have hreply := hp ctx c hctx hc
  rw [Parser.bind_apply, Parser.bind_apply]
  generalize p ctx c = r at hreply
  generalize q ctx c = r' at hreply
  cases hreply with
  | ok hc => exact hf _ ctx _ hctx hc
  | error he => exact .error he
  | gaveUp => exact .gaveUp

/-- A last part that only gives a result. -/
theorem bindPure {g : α → β} (hp : Upholds line p q) :
    Upholds line (p >>= fun a => Pure.pure (g a)) (q >>= fun a => Pure.pure (g a)) :=
  hp.bind fun _ => pure _

theorem look (f : Cursor → α) : Upholds line (Parser.look f) (Parser.look f) := fun _ _ _ hc => .ok hc

/-- The rounds of a loop are counted by what is left of the line, which is the same for both. -/
theorem fuel {f f' : Nat → Parser β} (hf : ∀ k, Upholds line (f k) (f' k)) :
    Upholds line (Parser.look (·.rest.length + 1) >>= f) (Parser.look (·.rest.length + 1) >>= f') :=
  (look _).bind hf

theorem loop {γ : Type} (rounds rounds' : Nat → γ → Parser α)
    (hzero : ∀ acc, rounds 0 acc = Parser.exhausted)
    (hround : ∀ k acc, (∀ acc, Upholds line (rounds k acc) (rounds' k acc)) →
      Upholds line (rounds (k + 1) acc) (rounds' (k + 1) acc))
    (k : Nat) (acc : γ) : Upholds line (rounds k acc) (rounds' k acc) := by
  induction k generalizing acc with
  | zero =>
    rw [hzero]
    exact exhausted
  | succ k ih => exact hround k acc ih

/-- A noted place is in the line: the parser may go back there or report it. -/
theorem cursor {f f' : Cursor → Parser β}
    (hf : ∀ start, start.IsIn line.toList → Upholds line (f start) (f' start)) :
    Upholds line (Parser.cursor >>= f) (Parser.cursor >>= f') :=
  fun ctx c hctx hc => hf c hc ctx c hctx hc

theorem goto (hstart : start.IsIn line.toList) : Upholds line (Parser.goto start) (Parser.goto start) :=
  fun _ _ _ _ => .ok hstart

theorem move {f : Cursor → Cursor} (hf : ∀ c, c.IsIn line.toList → (f c).IsIn line.toList) :
    Upholds line (Parser.move f) (Parser.move f) :=
  fun _ c _ hc => .ok (hf c hc)

theorem reading {f : Cursor → α × Cursor} (hf : ∀ c, c.IsIn line.toList → (f c).2.IsIn line.toList) :
    Upholds line (Parser.reading f) (Parser.reading f) :=
  fun _ c _ hc => .ok (hf c hc)

/-- A token starts in the line, so its start may be reported. -/
theorem token {k k' : Token → Parser β}
    (hk : ∀ t : Token, t.start ≤ line.length → Upholds line (k t) (k' t)) :
    Upholds line (Parser.token >>= k) (Parser.token >>= k') := by
  intro ctx c hctx hc
  have hstart : c.expressionToken.1.start ≤ line.length := by
    rw [c.start_expressionToken]
    exact hc.skipSpaces.pos_le
  exact hk _ hstart ctx _ hctx hc.expressionToken

theorem textToken (mode : TextMode) :
    Upholds line (Parser.reading mode.token) (Parser.reading mode.token) :=
  reading fun _ hc => hc.textToken _

theorem traced {name : String} (hp : Upholds line p q) :
    Upholds line (Parser.traced name p) (Parser.traced name q) := by
  intro ctx c hctx hc
  unfold Parser.traced
  split
  · exact hp ctx c hctx hc
  · rename_i hname
    exact hp _ c (hctx.inRule hname) hc

theorem attempt (hp : Upholds line p q) : Upholds line (Parser.attempt p) (Parser.attempt q) := by
  intro ctx c hctx hc
  have hreply := hp ctx c hctx hc
  simp only [Parser.attempt]
  generalize p ctx c = r at hreply
  generalize q ctx c = r' at hreply
  cases hreply with
  | ok hc => exact .ok hc
  | error => exact .ok hc
  | gaveUp => exact .gaveUp

theorem ite {P : Prop} [Decidable P] {x y x' y' : Parser α} (hx : Upholds line x x')
    (hy : Upholds line y y') : Upholds line (if P then x else y) (if P then x' else y') := by
  split
  · exact hx
  · exact hy

theorem skipSpaces : Upholds line Parser.skipSpaces Parser.skipSpaces := move fun _ hc => hc.skipSpaces

theorem skipWhile (s : Char → Bool) :
    Upholds line (Parser.move (·.skipWhile s)) (Parser.move (·.skipWhile s)) :=
  move fun _ hc => hc.skipWhile s

theorem skip (k : Nat) : Upholds line (Parser.move (·.skip k)) (Parser.move (·.skip k)) :=
  move fun _ hc => hc.skip k

theorem commandEnds : Upholds line Parser.commandEnds Parser.commandEnds := skipSpaces.bind fun _ => look _

theorem valueEnds : Upholds line Parser.valueEnds Parser.valueEnds :=
  commandEnds.bind fun _ => ite (pure _) (look _)

theorem tryExact (word : String) : Upholds line (Parser.tryExact word) (Parser.tryExact word) := by
  intro ctx c _ hc
  unfold Parser.tryExact
  split
  · exact .ok (hc.skip _)
  · exact .ok hc

theorem ifExact {word : String} {x y x' y' : Parser α} (hx : Upholds line x x') (hy : Upholds line y y') :
    Upholds line (do if ← Parser.tryExact word then x else y) (do if ← Parser.tryExact word then x' else y') :=
  (tryExact word).bind fun _ => ite hx hy

theorem expect (word : String) : Upholds line (Parser.expect word) (Parser.expect word) :=
  ifExact (pure _) (fail _)

theorem wordOf (s : Char → Bool) : Upholds line (Parser.wordOf s) (Parser.wordOf s) := by
  refine skipSpaces.bind fun _ => cursor fun _ _ => (skipWhile s).bind fun _ => cursor fun _ _ => ?_
  exact skipSpaces.bindPure

theorem simpleWord : Upholds line Parser.simpleWord Parser.simpleWord := wordOf _

theorem complexWord : Upholds line Parser.complexWord Parser.complexWord := wordOf _

theorem keyword? (table : List (String × α)) : Upholds line (Parser.keyword? table) (Parser.keyword? table) := by
  intro ctx c _ hc
  simp only [Parser.keyword?]
  split
  · exact .ok hc
  · split
    · exact .ok hc
    · exact .ok (hc.skip _)

end Upholds

/-- The parsers for nested parts of one grammar uphold those of the other. -/
structure Grammar.Upholds (line : String) (g h : Grammar) : Prop where
  expression : Language.Upholds line g.expression h.expression
  binary : ∀ level, Language.Upholds line (g.binary level) (h.binary level)
  unary : Language.Upholds line g.unary h.unary
  statement : Language.Upholds line g.statement h.statement
  statements : Language.Upholds line g.statements h.statements

end TwinShell.Language
