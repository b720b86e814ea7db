import TwinShell.Proofs.Language.Consumption
import TwinShell.Proofs.Language.Keywords

/-!
# How far a parser gets

`Ends n m p` counts what is left of the line: from fewer than `n` characters the parser comes to an end without giving up, with fewer than `m a` left where it gives `a`. No place has fewer than zero characters left, so what is read is subtracted and no case has to be set aside. A token other than `eof` takes up a character, and a loop of which each round reads one has enough rounds.
-/

namespace TwinShell.Language

variable {α β : Type} {n n' d : Nat}

/-- How many characters a token of this kind has at least. -/
def TokenKind.width : TokenKind → Nat
  | .eof => 0
  | _ => 1

theorem TokenKind.width_le (kind : TokenKind) : kind.width ≤ 1 := by
  cases kind <;> simp [width]

namespace Cursor

variable {c start : Cursor}

theorem length_of_startsWith (word : String) (h : c.startsWith word = true) :
    word.length ≤ c.rest.length := by
  have hstarts : word.toList <+: c.rest := List.isPrefixOf_iff_prefix.1 h
  exact String.length_toList ▸ hstarts.length_le

theorem length_of_peek? {ch : Char} (h : c.peek? = some ch) : 1 ≤ c.rest.length := by
  cases hrest : c.rest with
  | nil => simp [peek?, hrest] at h
  | cons first rest => exact Nat.succ_pos _

/-! ### Tokens -/

/-- The token found at `start` takes up its width. -/
def Takes (start : Cursor) (found : Token × Cursor) : Prop :=
  start.pos + found.1.kind.width ≤ found.2.pos

theorem Found.takes {found : Token × Cursor} (h : start.Found found) : start.Takes found := by
  cases h with
  | nothing => exact Nat.le_refl _
  | @upTo c kind _ hpos _ =>
    have hwidth := kind.width_le
    simp only [Takes, emit]
    omega

theorem takes_textToken (start : Cursor) (stops : String) : start.Takes (start.textToken stops) :=
  (found_textToken stops start).takes

theorem takes_expressionToken (c : Cursor) : c.Takes c.expressionToken :=
  Nat.le_trans (Nat.add_le_add_right (c.pos_le_skipWhile Text.isSpaceOrTab) _) c.found_expressionToken.takes

/-- The place is in a line of its own: what was read before it does not matter here. -/
theorem isIn_ownLine (c : Cursor) : c.IsIn (List.replicate c.pos ' ' ++ c.rest) :=
  ⟨_, rfl, List.length_replicate.symm⟩

/-- In one line, the place further on has less left. -/
theorem IsIn.length_le {line : List Char} {k : Nat} (hstart : start.IsIn line) (hc : c.IsIn line)
    (h : start.pos + k ≤ c.pos) : c.rest.length + k ≤ start.rest.length := by
  have hbefore := hstart.pos_add_length
  have hafter := hc.pos_add_length
  omega

end Cursor

/-! ### Parsers -/

/-- From a place with fewer than `n` characters left the parser does not give up, and where it gives `a` there are fewer than `m a` left. -/
def Ends (n : Nat) (m : α → Nat) (p : Parser α) : Prop :=
  ∀ ctx c, c.rest.length < n →
    p ctx c ≠ .exhausted ∧ ∀ a c', p ctx c = .ok a c' → c'.rest.length < m a

namespace Ends

variable {m m' : α → Nat} {l : β → Nat} {p : Parser α} {f : α → Parser β}

theorem zero : Ends 0 m p := fun _ _ hc => absurd hc (Nat.not_lt_zero _)

theorem le (h : Ends n m p) (hm : ∀ a, m a ≤ m' a) : Ends n m' p := fun ctx c hc =>
  ⟨(h ctx c hc).1, fun a c' hok => Nat.lt_of_lt_of_le ((h ctx c hc).2 a c' hok) (hm a)⟩

theorem of_le (h : Ends n m p) (hn : n' ≤ n) : Ends n' m p := fun ctx c hc =>
  h ctx c (Nat.lt_of_lt_of_le hc hn)

theorem less (h : Ends n m p) {k : Nat} : Ends (n - k) m p := h.of_le (Nat.sub_le n k)

theorem of_ok (h : ∀ ctx c, c.rest.length < n → ∃ a c', p ctx c = .ok a c' ∧ c'.rest.length < m a) :
    Ends n m p := by
  intro ctx c hc
  obtain ⟨a, c', hok, hlength⟩ := h ctx c hc
  rw [hok]
  refine ⟨nofun, ?_⟩
  rintro _ _ ⟨⟩
  exact hlength

theorem of_error (h : ∀ ctx c, ∃ e, p ctx c = .error e) : Ends n m p := by
  intro ctx c hc
  obtain ⟨e, herror⟩ := h ctx c
  rw [herror]
  exact ⟨nofun, nofun⟩

theorem pure (a : α) : Ends n (fun _ => n) (Pure.pure a) := of_ok fun _ c hc => ⟨a, c, rfl, hc⟩

theorem fail (problem : Problem) : Ends n m (Parser.fail problem) := of_error fun _ _ => ⟨_, rfl⟩

theorem failAt (position : Nat) (problem : Problem) : Ends n m (Parser.failAt position problem) :=
  of_error fun _ _ => ⟨_, rfl⟩

theorem bind (hp : Ends n m p) (hf : ∀ a, Ends (m a) l (f a)) : Ends n l (p >>= f) := by
  intro ctx c hc
  obtain ⟨hends, hok⟩ := hp ctx c hc
  rw [Parser.bind_apply]
  split
  · rename_i a c' hfirst
    exact hf a ctx c' (hok a c' hfirst)
  · exact ⟨nofun, nofun⟩
  · exact absurd ‹_› hends

/-- A last part that only gives a result. -/
theorem bindPure {g : α → β} (hp : Ends n (fun _ => n') p) :
    Ends n (fun _ => n') (p >>= fun a => Pure.pure (g a)) :=
  hp.bind fun _ => pure _

theorem look (f : Cursor → α) : Ends n (fun _ => n) (Parser.look f) :=
  of_ok fun _ c hc => ⟨f c, c, rfl, hc⟩

theorem move {f : Cursor → Cursor} (hf : ∀ c, (f c).rest.length ≤ c.rest.length) :
    Ends n (fun _ => n) (Parser.move f) :=
  of_ok fun _ c hc => ⟨(), f c, rfl, Nat.lt_of_le_of_lt (hf c) hc⟩

theorem goto {start : Cursor} (hstart : start.rest.length < n') :
    Ends n (fun _ => n') (Parser.goto start) :=
  of_ok fun _ _ _ => ⟨(), start, rfl, hstart⟩

theorem cursor {f : Cursor → Parser β} (hf : ∀ start, start.rest.length < n → Ends n l (f start)) :
    Ends n l (Parser.cursor >>= f) :=
  fun ctx c hc => hf c hc ctx c hc

/-- A loop that may take one round for every character that is left, and one more. -/
theorem fuel {f : Nat → Parser β} (hf : ∀ fuel, Ends (min n fuel) (fun _ => min n fuel) (f fuel)) :
    Ends n (fun _ => n) (Parser.look (·.rest.length + 1) >>= f) := by
  intro ctx c hc
  have hends := (hf (c.rest.length + 1)).le fun _ => Nat.min_le_left n _
  exact hends ctx c (Nat.lt_min.2 ⟨hc, Nat.lt_succ_self _⟩)

/-- A loop ends within its rounds if each round but the last reads a character. -/
theorem loop {γ : Type} (rounds : Nat → γ → Parser α)
    (hround : ∀ n fuel acc, n ≤ d → (∀ acc, Ends (n - 1) (fun _ => n) (rounds fuel acc)) →
      Ends n (fun _ => n) (rounds (fuel + 1) acc))
    (hn : n ≤ d) (fuel : Nat) (acc : γ) :
    Ends (min n fuel) (fun _ => min n fuel) (rounds fuel acc) := by
  induction fuel generalizing n acc with
  | zero =>
    rw [Nat.min_zero]
    exact .zero
  | succ fuel ih =>
    have hle : min n (fuel + 1) ≤ d := Nat.le_trans (Nat.min_le_left _ _) hn
    refine hround _ fuel acc hle fun acc => ?_
    have hrest := ih (n := min n (fuel + 1) - 1) (Nat.le_trans (Nat.sub_le _ _) hle) acc
    rw [Nat.min_eq_left (by omega)] at hrest
    exact hrest.le fun _ => Nat.sub_le _ _

theorem traced {name : String} (hp : Ends n m p) : Ends n m (Parser.traced name p) := by
  intro ctx c hc
  unfold Parser.traced
  split
  · exact hp _ c hc
  · exact hp _ c hc

theorem attempt (hp : Ends n (fun _ => n) p) : Ends n (fun _ => n) (Parser.attempt p) := by
  intro ctx c hc
  obtain ⟨hends, hok⟩ := hp ctx c hc
  unfold Parser.attempt
  split
  · refine ⟨nofun, ?_⟩
    rintro _ _ ⟨⟩
    exact hok _ _ ‹_›
  · refine ⟨nofun, ?_⟩
    rintro _ _ ⟨⟩
    exact hc
  · exact absurd ‹_› hends

theorem ite {P : Prop} [Decidable P] {x y : Parser α} (hx : Ends n m x) (hy : Ends n m y) :
    Ends n m (if P then x else y) := by
  split
  · exact hx
  · exact hy

theorem reading {f : Cursor → Token × Cursor} (hin : ∀ line c, c.IsIn line → (f c).2.IsIn line)
    (htakes : ∀ c : Cursor, c.Takes (f c)) : Ends n (fun token => n - token.kind.width) (Parser.reading f) := by
  refine of_ok fun _ c hc => ⟨(f c).1, (f c).2, rfl, ?_⟩
  have hlength := c.isIn_ownLine.length_le (hin _ c c.isIn_ownLine) (htakes c)
  omega

theorem token : Ends n (fun token => n - token.kind.width) Parser.token :=
  reading (fun _ _ hc => hc.expressionToken) Cursor.takes_expressionToken

theorem textToken (mode : TextMode) :
    Ends n (fun token => n - token.kind.width) (Parser.reading mode.token) :=
  reading (fun _ _ hc => hc.textToken _) fun c => c.takes_textToken _

theorem skipWhile (q : Char → Bool) : Ends n (fun _ => n) (Parser.move (·.skipWhile q)) :=
  move fun _ => (List.dropWhile_suffix q).length_le

theorem skip (k : Nat) : Ends n (fun _ => n) (Parser.move (·.skip k)) :=
  move fun c => by simp [Cursor.skip]

theorem skipSpaces : Ends n (fun _ => n) Parser.skipSpaces := skipWhile _

theorem commandEnds : Ends n (fun _ => n) Parser.commandEnds := skipSpaces.bind fun _ => look _

theorem valueEnds : Ends n (fun _ => n) Parser.valueEnds :=
  commandEnds.bind fun _ => ite (pure _) (look _)

theorem tryExact (word : String) :
    Ends n (fun found => if found then n - word.length else n) (Parser.tryExact word) := by
  refine of_ok fun ctx c hc => ?_
  unfold Parser.tryExact
  split
  · rename_i hstarts
    refine ⟨true, _, rfl, ?_⟩
    simp only [Cursor.skip, List.length_drop, if_true]
    exact Nat.sub_lt_sub_right (Cursor.length_of_startsWith word hstarts) hc
  · exact ⟨false, c, rfl, hc⟩

/-- What is read behind a word that is there has that much less left. -/
theorem ifExact {word : String} {x y : Parser α} (hx : Ends (n - word.length) m x) (hy : Ends n m y) :
    Ends n m (do if ← Parser.tryExact word then x else y) := by
  refine (tryExact word).bind fun found => ?_
  cases found with
  | true => exact hx
  | false => exact hy

theorem expect (word : String) : Ends n (fun _ => n - word.length) (Parser.expect word) :=
  ifExact (pure _) (fail _)

/-- A word that only has to be there. -/
theorem close {word : String} : Ends n (fun _ => n) (Parser.expect word) :=
  (expect word).le fun _ => Nat.sub_le _ _

theorem wordOf (q : Char → Bool) : Ends n (fun _ => n) (Parser.wordOf q) := by
  refine skipSpaces.bind fun _ => cursor fun _ _ => (skipWhile q).bind fun _ => cursor fun _ _ => ?_
  exact skipSpaces.bindPure

theorem simpleWord : Ends n (fun _ => n) Parser.simpleWord := wordOf _

theorem complexWord : Ends n (fun _ => n) Parser.complexWord := wordOf _

/-- No word of the table is empty, so a word that is found was read. -/
theorem keyword? {table : List (String × α)} (htable : ∀ entry ∈ table, entry.1 ≠ "") :
    Ends n (fun found => if found.isSome then n - 1 else n) (Parser.keyword? table) := by
  refine of_ok fun ctx c hc => ?_
  simp only [Parser.keyword?]
  generalize hwalk : Parser.walkTable _ c.rest = walk
  obtain ⟨k, found⟩ := walk
  cases found with
  | none => exact ⟨none, c, rfl, hc⟩
  | some a =>
    obtain ⟨hle, hmem⟩ := mem_of_walkTable hwalk
    obtain ⟨entry, hentry, hword⟩ := List.mem_map.1 hmem
    have hpos : k ≠ 0 := by
      rintro rfl
      exact htable entry hentry (String.toList_inj.1 (congrArg Prod.fst hword))
    dsimp only
    split
    · exact ⟨none, c, rfl, hc⟩
    · refine ⟨some _, _, rfl, ?_⟩
      simp only [Cursor.skip, List.length_drop, Option.isSome_some, if_true]
      calc c.rest.length - k < n - k := Nat.sub_lt_sub_right hle hc
        _ ≤ n - 1 := Nat.sub_le_sub_left (Nat.pos_of_ne_zero hpos) n

theorem anyKeyword {table : List (String × α)} (htable : ∀ entry ∈ table, entry.1 ≠ "") :
    Ends n (fun _ => n) (Parser.keyword? table) := by
  refine (keyword? htable).le fun found => ?_
  split
  · exact Nat.sub_le n 1
  · exact Nat.le_refl n

end Ends

end TwinShell.Language
