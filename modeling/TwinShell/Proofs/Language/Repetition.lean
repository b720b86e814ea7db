import TwinShell.Proofs.Language.Embedding

/-!
# Reading the same in a longer line

`Repeats m line excuse p q` says that `q`, in the longer line, does what `p` does in `line`: it gives the same result at the same place, or has a problem where `p` has one. A parser that gives up is not compared, so the bounds on nesting and rounds, which depend on the length of the line, do not have to be. How many of the problems of `p` need not be repeated is the `excuse`: a value that is no expression is text, so the problems of an expression decide how a value is read and have to be there in the longer line too; the problems of a statement end the reading, and nothing depends on them.
-/

namespace TwinShell.Language

variable {α β : Type} {m : Embedding} {line : List Char}

theorem Cursor.startsWith_eq_false {c : Cursor} {word : String} {ch : Char} (hch : ch ∈ word.toList)
    (hrest : ch ∉ c.rest) : c.startsWith word = false := by
  rw [← Bool.not_eq_true, startsWith, List.isPrefixOf_iff_prefix]
  exact fun hstarts => hrest (hstarts.subset hch)

theorem Parser.expect_eq_error {c : Cursor} {word : String} (h : c.startsWith word = false) (ctx : Context) :
    Parser.expect word ctx c = .error ⟨.expected word, c.pos, ctx.trail, ctx.input⟩ := by
  simp only [Parser.expect, Parser.bind_apply, Parser.tryExact, h]
  rfl

/-- Which problems need not be repeated. -/
inductive Excuse where
  | none
  | unclosed
  | any

/-- An unclosed quotation is excused where a quotation mark that closes it comes behind the line. -/
def Excuse.Covers (m : Embedding) : Excuse → SyntaxError → Prop
  | .none, _ => False
  | .unclosed, e => '"' ∈ m.after ∧ e.problem = .expected "\""
  | .any, _ => True

/-- The second reply repeats the first one in the longer line. -/
inductive Echoes (m : Embedding) (line : List Char) (excuse : Excuse) : Reply α → Reply α → Prop where
  | ok {a : α} {c : Cursor} (hc : c.IsIn line) : Echoes m line excuse (.ok a c) (.ok a (c.placed m))
  | error {e e' : SyntaxError} : Echoes m line excuse (.error e) (.error e')
  | excused {e : SyntaxError} {reply : Reply α} (he : excuse.Covers m e) : Echoes m line excuse (.error e) reply
  | gaveUp {reply : Reply α} : Echoes m line excuse .exhausted reply
  | givesUp {reply : Reply α} : Echoes m line excuse reply .exhausted

/-- From every place in the line, `q` repeats in the longer line what `p` does. -/
def Repeats (m : Embedding) (line : List Char) (excuse : Excuse) (p q : Parser α) : Prop :=
  ∀ ctx ctx' c, c.IsIn line → Echoes m line excuse (p ctx c) (q ctx' (c.placed m))

variable {excuse : Excuse}

theorem Echoes.bind {p q : Parser α} {f f' : α → Parser β} {ctx ctx' : Context} {c c' : Cursor}
    (h : Echoes m line excuse (p ctx c) (q ctx' c'))
    (hf : ∀ a (c : Cursor), c.IsIn line → Echoes m line excuse (f a ctx c) (f' a ctx' (c.placed m))) :
    Echoes m line excuse ((p >>= f) ctx c) ((q >>= f') ctx' c') := by
  rw [Parser.bind_apply, Parser.bind_apply]
  generalize p ctx c = r at h
  generalize q ctx' c' = r' at h
  cases h with
  | ok hc => exact hf _ _ hc
  | error => exact .error
  | excused he => exact .excused he
  | gaveUp => exact .gaveUp
  | givesUp => exact .givesUp

theorem Parser.walkTable_placed {table : List (String × α)} (htable : ∀ entry ∈ table, ';' ∉ entry.1.toList)
    (c : Cursor) : walkTable (table.map fun (word, a) => (word.toList, a)) (c.placed m).rest =
      walkTable (table.map fun (word, a) => (word.toList, a)) c.rest :=
  walkTable_append_after (List.forall_mem_map.2 htable) c.rest

namespace Repeats

variable {p q : Parser α} {f f' : α → Parser β} {start : Cursor}

theorem pure (a : α) : Repeats m line excuse (Pure.pure a) (Pure.pure a) := fun _ _ _ hc => .ok hc

theorem fail (problem problem' : Problem) :
    Repeats m line excuse (Parser.fail problem : Parser α) (Parser.fail problem') :=
  fun _ _ _ _ => .error

theorem failAt (position position' : Nat) (problem problem' : Problem) :
    Repeats m line excuse (Parser.failAt position problem : Parser α) (Parser.failAt position' problem') :=
  fun _ _ _ _ => .error

theorem bind (hp : Repeats m line excuse p q) (hf : ∀ a, Repeats m line excuse (f a) (f' a)) :
    Repeats m line excuse (p >>= f) (q >>= f') :=
  fun ctx ctx' c hc => (hp ctx ctx' c hc).bind fun a c hc => hf a ctx ctx' c hc

theorem bindPure {g : α → β} (hp : Repeats m line excuse p q) :
    Repeats m line excuse (p >>= fun a => Pure.pure (g a)) (q >>= fun a => Pure.pure (g a)) :=
  hp.bind fun _ => pure _

theorem mono {excuse' : Excuse} (hp : Repeats m line excuse p q)
    (hcovers : ∀ e, excuse.Covers m e → excuse'.Covers m e) : Repeats m line excuse' p q := by
  intro ctx ctx' c hc
  have hreply := hp ctx ctx' c hc
  generalize p ctx c = r at hreply
  generalize q ctx' (c.placed m) = r' at hreply
  cases hreply with
  | ok hc => exact .ok hc
  | error => exact .error
  | excused he => exact .excused (hcovers _ he)
  | gaveUp => exact .gaveUp
  | givesUp => exact .givesUp

theorem of_none (hp : Repeats m line .none p q) : Repeats m line excuse p q := hp.mono fun _ => False.elim

/-- Without a quotation mark behind the line there is nothing to excuse. -/
theorem unmarked (hp : Repeats m line .unclosed p q) (hmark : '"' ∉ m.after) : Repeats m line .none p q :=
  hp.mono fun _ he => hmark he.1

theorem look {f f' : Cursor → α} (hf : ∀ c, c.IsIn line → f' (c.placed m) = f c) :
    Repeats m line excuse (Parser.look f) (Parser.look f') := by
  intro ctx ctx' c hc
  simp only [Parser.look, hf c hc]
  exact .ok hc

/-- The rounds of a loop are counted by what is left of the line; how many they are is not compared. -/
theorem fuel {f f' : Nat → Parser β} (hf : ∀ k k', Repeats m line excuse (f k) (f' k')) :
    Repeats m line excuse (Parser.look (·.rest.length + 1) >>= f) (Parser.look (·.rest.length + 1) >>= f') :=
  fun ctx ctx' c hc => hf _ _ ctx ctx' c hc

theorem loop {γ : Type} (rounds rounds' : Nat → γ → Parser α)
    (hzero : ∀ acc, rounds 0 acc = Parser.exhausted) (hzero' : ∀ acc, rounds' 0 acc = Parser.exhausted)
    (hround : ∀ k k' acc, (∀ acc, Repeats m line excuse (rounds k acc) (rounds' k' acc)) →
      Repeats m line excuse (rounds (k + 1) acc) (rounds' (k' + 1) acc))
    (k k' : Nat) (acc : γ) : Repeats m line excuse (rounds k acc) (rounds' k' acc) := by
  induction k generalizing k' acc with
  | zero =>
    rw [hzero]
    exact fun _ _ _ _ => .gaveUp
  | succ k ih =>
    cases k' with
    | zero =>
      rw [hzero']
      exact fun _ _ _ _ => .givesUp
    | succ k' => exact hround k k' acc (ih k')

theorem cursor {f f' : Cursor → Parser β}
    (hf : ∀ start, start.IsIn line → Repeats m line excuse (f start) (f' (start.placed m))) :
    Repeats m line excuse (Parser.cursor >>= f) (Parser.cursor >>= f') :=
  fun ctx ctx' c hc => hf c hc ctx ctx' c hc

theorem goto (hstart : start.IsIn line) :
    Repeats m line excuse (Parser.goto start) (Parser.goto (start.placed m)) :=
  fun _ _ _ _ => .ok hstart

theorem move {f : Cursor → Cursor} (hin : ∀ c, c.IsIn line → (f c).IsIn line)
    (hf : ∀ c, c.IsIn line → f (c.placed m) = (f c).placed m) :
    Repeats m line excuse (Parser.move f) (Parser.move f) := by
  intro ctx ctx' c hc
  simp only [Parser.move, hf c hc]
  exact .ok (hin c hc)

theorem reading {f : Cursor → Token × Cursor} {k k' : Token → Parser β}
    (hin : ∀ c, c.IsIn line → (f c).2.IsIn line)
    (hf : ∀ c, c.IsIn line → f (c.placed m) = Cursor.placedToken m (f c))
    (hk : ∀ t : Token, Repeats m line excuse (k t) (k' (t.placed m))) :
    Repeats m line excuse (Parser.reading f >>= k) (Parser.reading f >>= k') := by
  intro ctx ctx' c hc
  simp only [Parser.bind_apply, Parser.reading, hf c hc]
  exact hk _ ctx ctx' _ (hin c hc)

theorem token {k k' : Token → Parser β} (hk : ∀ t : Token, Repeats m line excuse (k t) (k' (t.placed m))) :
    Repeats m line excuse (Parser.token >>= k) (Parser.token >>= k') :=
  reading (fun _ hc => hc.expressionToken) (fun _ hc => Cursor.expressionToken_placed hc) hk

theorem textToken {mode : TextMode} {k k' : Token → Parser β} (hmode : ';' ∈ mode.stops.toList)
    (hk : ∀ t : Token, Repeats m line excuse (k t) (k' (t.placed m))) :
    Repeats m line excuse (Parser.reading mode.token >>= k) (Parser.reading mode.token >>= k') :=
  reading (fun _ hc => hc.textToken _) (fun _ hc => Cursor.textToken_placed hmode hc) hk

theorem traced {name : String} (hp : Repeats m line excuse p q) :
    Repeats m line excuse (Parser.traced name p) (Parser.traced name q) := by
  intro ctx ctx' c hc
  unfold Parser.traced
  split
  · exact hp _ _ c hc
  · exact hp _ _ c hc

/-- A problem of `p` is what decides here, so it has to be there in the longer line. -/
theorem attempt (hp : Repeats m line .none p q) :
    Repeats m line excuse (Parser.attempt p) (Parser.attempt q) := by
  intro ctx ctx' c hc
  have hreply := hp ctx ctx' c hc
  simp only [Parser.attempt]
  generalize p ctx c = r at hreply
  generalize q ctx' (c.placed m) = r' at hreply
  cases hreply with
  | ok hc => exact .ok hc
  | error => exact .ok hc
  | excused he => exact he.elim
  | gaveUp => exact .gaveUp
  | givesUp => exact .givesUp

theorem ite {P : Prop} [Decidable P] {x y x' y' : Parser α} (hx : Repeats m line excuse x x')
    (hy : Repeats m line excuse y y') :
    Repeats m line excuse (if P then x else y) (if P then x' else y') := by
  split
  · exact hx
  · exact hy

/-- What is read where the line looks like `s` may rely on it. -/
theorem ifLook {s : Cursor → Bool} {x y x' y' : Parser α} (hs : ∀ c, c.IsIn line → s (c.placed m) = s c)
    (hx : ∀ ctx ctx' c, c.IsIn line → s c = true → Echoes m line excuse (x ctx c) (x' ctx' (c.placed m)))
    (hy : Repeats m line excuse y y') :
    Repeats m line excuse (do if ← Parser.look s then x else y) (do if ← Parser.look s then x' else y') := by
  intro ctx ctx' c hc
  simp only [Parser.bind_apply, Parser.look, hs c hc]
  split
  · exact hx ctx ctx' c hc ‹_›
  · exact hy ctx ctx' c hc

theorem skipWhile {s : Char → Bool} (hs : s ';' = false) :
    Repeats m line excuse (Parser.move (·.skipWhile s)) (Parser.move (·.skipWhile s)) :=
  move (fun _ hc => hc.skipWhile s) fun c _ => Cursor.skipWhile_placed hs c

theorem skipSpaces : Repeats m line excuse Parser.skipSpaces Parser.skipSpaces := skipWhile rfl

theorem startsWith (word : String) (hword : ';' ∉ word.toList) :
    Repeats m line excuse (Parser.look (·.startsWith word)) (Parser.look (·.startsWith word)) :=
  look fun c _ => Cursor.startsWith_placed word hword c

theorem commandEnds : Repeats m line excuse Parser.commandEnds Parser.commandEnds :=
  skipSpaces.bind fun _ => look fun c _ => Cursor.stops_placed rfl c

theorem valueEnds : Repeats m line excuse Parser.valueEnds Parser.valueEnds :=
  commandEnds.bind fun _ => ite (pure _) (look fun c _ => Cursor.nextIs_placed (by decide) c)

theorem tryExact (word : String) (hword : ';' ∉ word.toList) :
    Repeats m line excuse (Parser.tryExact word) (Parser.tryExact word) := by
  intro ctx ctx' c hc
  simp only [Parser.tryExact, Cursor.startsWith_placed word hword]
  split
  · rename_i hstarts
    rw [Cursor.skip_placed (Cursor.length_of_startsWith word hstarts)]
    exact .ok (hc.skip _)
  · exact .ok hc

theorem expect (word : String) (hword : ';' ∉ word.toList) :
    Repeats m line excuse (Parser.expect word) (Parser.expect word) :=
  (tryExact word hword).bind fun _ => ite (pure _) (fail _ _)

/-- A semicolon in the line is there in the longer line; one that is missing may be the one behind the line. -/
theorem expectSemicolon : Repeats m line .any (Parser.expect ";") (Parser.expect ";") := by
  intro ctx ctx' c hc
  cases hstarts : c.startsWith ";" with
  | false =>
    rw [Parser.expect_eq_error hstarts]
    exact .excused trivial
  | true =>
    have hlong := Cursor.startsWith_placed_of_startsWith (m := m) hstarts
    simp only [Parser.expect, Parser.bind_apply, Parser.tryExact, hstarts, hlong, if_true,
      Cursor.skip_placed (Cursor.length_of_startsWith ";" hstarts)]
    exact .ok (hc.skip _)

theorem wordOf {s : Char → Bool} (hs : s ';' = false) :
    Repeats m line excuse (Parser.wordOf s) (Parser.wordOf s) := by
  refine skipSpaces.bind fun _ => cursor fun first hfirst => (skipWhile hs).bind fun _ => ?_
  refine cursor fun last hlast => skipSpaces.bind fun _ => ?_
  rw [Cursor.textSince_placed hfirst hlast]
  exact pure _

theorem simpleWord : Repeats m line excuse Parser.simpleWord Parser.simpleWord := wordOf (by decide)

theorem complexWord : Repeats m line excuse Parser.complexWord Parser.complexWord := wordOf (by decide)

theorem keyword? {table : List (String × α)} (htable : ∀ entry ∈ table, ';' ∉ entry.1.toList) :
    Repeats m line excuse (Parser.keyword? table) (Parser.keyword? table) := by
  intro ctx ctx' c hc
  simp only [Parser.keyword?, Parser.walkTable_placed htable]
  generalize hwalk : Parser.walkTable _ c.rest = walk
  have hle := hwalk ▸ Parser.walkTable_le _ c.rest
  obtain ⟨k, found⟩ := walk
  cases found with
  | none => exact .ok hc
  | some a =>
    simp only [Cursor.skip_placed hle, Cursor.nextIs_placed (m := m) (p := Text.isNameChar) (by decide),
      show (c.placed m).rest.take k = c.rest.take k from List.take_append_of_le_length hle]
    split
    · exact .ok hc
    · exact .ok (hc.skip _)

end Repeats

/-! ### Readings that end before the line does

Statements go on behind a semicolon, so at the end of the line they do not repeat. It is enough that they do before it where something has to follow them.
-/

/-- As `Repeats`, for the readings of `p` that do not come to the end of the line. -/
def RepeatsInside (m : Embedding) (line : List Char) (p q : Parser α) : Prop :=
  ∀ ctx ctx' c a c', c.IsIn line → p ctx c = .ok a c' → c'.rest ≠ [] →
    Echoes m line .any (.ok a c') (q ctx' (c.placed m))

/-- The parser gives no result at the end of a line. -/
def NeedsMore (p : Parser α) : Prop := ∀ ctx c a c', c.rest = [] → p ctx c ≠ .ok a c'

theorem needsMore_expect {word : String} (ch : Char) (hch : ch ∈ word.toList) (f : Unit → Parser β) :
    NeedsMore (Parser.expect word >>= f) := by
  intro ctx c a c' hrest
  have hstarts : c.startsWith word = false := c.startsWith_eq_false hch (hrest ▸ List.not_mem_nil)
  rw [Parser.bind_apply, Parser.expect_eq_error hstarts]
  exact nofun

theorem NeedsMore.afterSpaces {p : Parser β} (hp : NeedsMore p) : NeedsMore (do Parser.skipSpaces; p) := by
  intro ctx c a c' hrest
  refine hp ctx c.skipSpaces a c' ?_
  rw [Cursor.skipSpaces, Cursor.skipWhile, hrest]
  rfl

theorem RepeatsInside.bind {p q : Parser α} {f f' : α → Parser β} (hp : RepeatsInside m line p q)
    (hf : ∀ a, Repeats m line .any (f a) (f' a)) (hmore : ∀ a, NeedsMore (f a)) :
    Repeats m line .any (p >>= f) (q >>= f') := by
  intro ctx ctx' c hc
  cases hfirst : p ctx c with
  | error e =>
    rw [Parser.bind_apply, hfirst]
    exact .excused trivial
  | exhausted =>
    rw [Parser.bind_apply, hfirst]
    exact .gaveUp
  | ok a c' =>
    by_cases hrest : c'.rest = []
    · have hboth : (p >>= f) ctx c = f a ctx c' := by rw [Parser.bind_apply, hfirst]
      rw [hboth]
      cases hsecond : f a ctx c' with
      | ok b c'' => exact absurd hsecond (hmore a ctx c' b c'' hrest)
      | error e => exact .excused trivial
      | exhausted => exact .gaveUp
    · refine Echoes.bind ?_ fun a c hc => hf a ctx ctx' c hc
      rw [hfirst]
      exact hp ctx ctx' c a c' hc hfirst hrest

theorem repeatsInside_skipWhile (s : Char → Bool) :
    RepeatsInside m line (Parser.move (·.skipWhile s)) (Parser.move (·.skipWhile s)) := by
  rintro ctx ctx' c a c' hc ⟨⟩ hrest
  simp only [Parser.move, Cursor.skipWhile_placed_of_stops hrest]
  exact .ok (hc.skipWhile s)

end TwinShell.Language
