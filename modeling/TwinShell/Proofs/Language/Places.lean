import TwinShell.Proofs.Language.Scanning

/-!
# Places in a line

A parser goes forward by reading and back by returning to a place it has noted, so from a place in a line it only gets to places in that line. `StaysIn line p` says this of a parser; a parser that notes where it is may go back there because that was a place in the line too. Every rule of the grammar stays in its line, by the depth of nesting.
-/

namespace TwinShell.Language

/-- The cursor is a place in the line: what is left is the end of the line, and what was read comes before it. -/
def Cursor.IsIn (line : List Char) (c : Cursor) : Prop :=
  ∃ read, line = read ++ c.rest ∧ c.pos = read.length

variable {line : List Char} {c start : Cursor}

namespace Cursor.IsIn

theorem atStart (line : List Char) : (Cursor.start line).IsIn line := ⟨[], rfl, rfl⟩

theorem atSeek (line : List Char) (p : Nat) : (Cursor.seek line p).IsIn line :=
  ⟨line.take p, (List.take_append_drop p line).symm, by rw [Cursor.seek, List.length_take]⟩

theorem pos_add_length (hc : c.IsIn line) : c.pos + c.rest.length = line.length := by
  obtain ⟨read, rfl, hpos⟩ := hc
  rw [hpos, List.length_append]

theorem pos_le_length (hc : c.IsIn line) : c.pos ≤ line.length := by
  rw [← hc.pos_add_length]
  exact Nat.le_add_right _ _

theorem rest_eq (hc : c.IsIn line) : c.rest = line.drop c.pos := by
  obtain ⟨read, rfl, hpos⟩ := hc
  rw [hpos, List.drop_left]

theorem eq_seek (hc : c.IsIn line) : c = .seek line c.pos := by
  rw [Cursor.seek, Nat.min_eq_left hc.pos_le_length, ← hc.rest_eq]

theorem forward {text rest : List Char} (hc : c.IsIn line) (h : c.rest = text ++ rest) :
    IsIn line ⟨c.pos + text.length, rest⟩ := by
  obtain ⟨read, hline, hpos⟩ := hc
  refine ⟨read ++ text, ?_, ?_⟩
  · rw [hline, h, List.append_assoc]
  · simp only [hpos, List.length_append]

theorem reaches (hstart : start.IsIn line) (h : start.Reaches c) : c.IsIn line := by
  obtain ⟨pos, rest⟩ := c
  obtain ⟨text, hrest, rfl⟩ := h
  exact hstart.forward hrest

theorem skip (hc : c.IsIn line) (n : Nat) : (c.skip n).IsIn line := hc.reaches ((Reaches.refl c).skip n)

theorem skipWhile (hc : c.IsIn line) (p : Char → Bool) : (c.skipWhile p).IsIn line :=
  hc.reaches ((Reaches.refl c).skipWhile p)

theorem skipSpaces (hc : c.IsIn line) : c.skipSpaces.IsIn line := hc.skipWhile _

theorem exponentEnd? (hc : c.IsIn line) {stop : Cursor} (h : c.exponentEnd? = some stop) : stop.IsIn line :=
  hc.reaches ((Reaches.refl c).exponentEnd? h)

/-! ### Tokens -/

theorem found (hstart : start.IsIn line) {found : Token × Cursor} (h : start.Found found) : found.2.IsIn line := by
  cases h with
  | nothing => exact hstart
  | upTo hreaches => exact hstart.reaches hreaches

theorem textToken (hc : start.IsIn line) (stops : String) : (start.textToken stops).2.IsIn line :=
  hc.found (found_textToken stops start)

theorem expressionToken (hc : c.IsIn line) : c.expressionToken.2.IsIn line :=
  hc.skipSpaces.found c.found_expressionToken

end Cursor.IsIn

/-! ### Rules -/

/-- From a place in the line, the parser gets to a place in the line. -/
def StaysIn {α : Type} (line : List Char) (p : Parser α) : Prop :=
  ∀ ctx c a c', c.IsIn line → p ctx c = .ok a c' → c'.IsIn line

variable {α β : Type}

namespace StaysIn

theorem pure (a : α) : StaysIn line (Pure.pure a) := by
  intro ctx c b c' hc h
  cases h
  exact hc

theorem bind {p : Parser α} {f : α → Parser β} (hp : StaysIn line p) (hf : ∀ a, StaysIn line (f a)) :
    StaysIn line (p >>= f) := by
  intro ctx c b c' hc h
  rw [Parser.bind_apply] at h
  split at h
  · rename_i a c'' hfirst
    exact hf a ctx c'' b c' (hp ctx c a c'' hc hfirst) h
  · cases h
  · cases h

theorem exhausted : StaysIn line (Parser.exhausted : Parser α) := nofun

theorem fail (problem : Problem) : StaysIn line (Parser.fail problem : Parser α) := nofun

theorem failAt (position : Nat) (problem : Problem) :
    StaysIn line (Parser.failAt position problem : Parser α) := nofun

theorem look (f : Cursor → α) : StaysIn line (Parser.look f) := by
  intro ctx c a c' hc h
  cases h
  exact hc

theorem move {f : Cursor → Cursor} (hf : ∀ c, c.IsIn line → (f c).IsIn line) :
    StaysIn line (Parser.move f) := by
  intro ctx c a c' hc h
  cases h
  exact hf c hc

theorem reading {f : Cursor → α × Cursor} (hf : ∀ c, c.IsIn line → (f c).2.IsIn line) :
    StaysIn line (Parser.reading f) := by
  intro ctx c a c' hc h
  cases h
  exact hf c hc

theorem goto (hstart : start.IsIn line) : StaysIn line (Parser.goto start) := by
  intro ctx c a c' hc h
  cases h
  exact hstart

/-- A noted place is in the line, so the parser may go back there. -/
theorem cursor {f : Cursor → Parser β} (hf : ∀ start, start.IsIn line → StaysIn line (f start)) :
    StaysIn line (Parser.cursor >>= f) :=
  fun ctx c b c' hc h => hf c hc ctx c b c' hc h

theorem traced {name : String} {p : Parser α} (hp : StaysIn line p) :
    StaysIn line (Parser.traced name p) := by
  intro ctx c a c' hc h
  unfold Parser.traced at h
  split at h
  · exact hp _ c a c' hc h
  · exact hp _ c a c' hc h

theorem attempt {p : Parser α} (hp : StaysIn line p) : StaysIn line (Parser.attempt p) := by
  intro ctx c a c' hc h
  unfold Parser.attempt at h
  split at h
  · cases h
    exact hp ctx c _ c' hc ‹_›
  · cases h
    exact hc
  · cases h

theorem ite {p : Prop} [Decidable p] {x y : Parser α} (hx : StaysIn line x) (hy : StaysIn line y) :
    StaysIn line (if p then x else y) := by
  split
  · exact hx
  · exact hy

theorem skipSpaces : StaysIn line Parser.skipSpaces := move fun _ hc => hc.skipSpaces

theorem token : StaysIn line Parser.token := reading fun _ hc => hc.expressionToken

theorem commandEnds : StaysIn line Parser.commandEnds := skipSpaces.bind fun _ => look _

theorem valueEnds : StaysIn line Parser.valueEnds :=
  commandEnds.bind fun _ => ite (pure _) (look _)

theorem tryExact (word : String) : StaysIn line (Parser.tryExact word) := by
  intro ctx c a c' hc h
  unfold Parser.tryExact at h
  split at h
  · cases h
    exact hc.skip _
  · cases h
    exact hc

theorem expect (word : String) : StaysIn line (Parser.expect word) :=
  (tryExact word).bind fun _ => ite (pure _) (fail _)

theorem wordOf (p : Char → Bool) : StaysIn line (Parser.wordOf p) := by
  refine skipSpaces.bind fun _ => cursor fun first _ => ?_
  refine (move fun _ hc => hc.skipWhile p).bind fun _ => cursor fun last _ => ?_
  exact skipSpaces.bind fun _ => pure _

theorem simpleWord : StaysIn line Parser.simpleWord := wordOf _

theorem complexWord : StaysIn line Parser.complexWord := wordOf _

theorem keyword? (table : List (String × α)) : StaysIn line (Parser.keyword? table) := by
  intro ctx c a c' hc h
  simp only [Parser.keyword?] at h
  split at h
  · cases h
    exact hc
  · split at h
    · cases h
      exact hc
    · cases h
      exact hc.skip _

end StaysIn

/-- The parsers for nested parts stay in the line. -/
structure Grammar.StaysIn (line : List Char) (g : Grammar) : Prop where
  expression : Language.StaysIn line g.expression
  binary : ∀ level, Language.StaysIn line (g.binary level)
  unary : Language.StaysIn line g.unary
  statement : Language.StaysIn line g.statement
  statements : Language.StaysIn line g.statements

end TwinShell.Language
