import Mathlib.Data.List.TakeWhile
import TwinShell.Proofs.Language.Progress

/-!
# A line inside a longer one

A line of statements may stand inside a longer line, with something before it and a semicolon behind it. `Cursor.placed` takes a place in the line to the same place in the longer line. Reading does not see the difference as long as it does not run over the semicolon: no word, number or operator holds one, and of the texts only a quoted one goes on behind it.
-/

namespace TwinShell.Language

/-- Where a line stands inside a longer one: how much comes before it, and what comes behind it. -/
structure Embedding where
  before : Nat
  after : List Char
  separated : ∀ ch ∈ after.head?, ch = ';'

variable {m : Embedding} {line : List Char}

namespace Embedding

theorem after_cases (m : Embedding) : m.after = [] ∨ ∃ more, m.after = ';' :: more := by
  cases hafter : m.after with
  | nil => exact .inl rfl
  | cons ch more =>
    have hch : ch = ';' := m.separated ch (by rw [hafter]; rfl)
    exact .inr ⟨more, by rw [hch]⟩

theorem takeWhile_append_after {p : Char → Bool} (hp : p ';' = false) (text : List Char) :
    (text ++ m.after).takeWhile p = text.takeWhile p := by
  induction text with
  | nil =>
    obtain hafter | ⟨more, hafter⟩ := m.after_cases
    · rw [hafter]
      rfl
    · rw [hafter, List.nil_append, List.takeWhile_cons, hp]
      rfl
  | cons ch text ih => rw [List.cons_append, List.takeWhile_cons, List.takeWhile_cons, ih]

theorem dropWhile_append_after {p : Char → Bool} (hp : p ';' = false) (text : List Char) :
    (text ++ m.after).dropWhile p = text.dropWhile p ++ m.after := by
  induction text with
  | nil =>
    obtain hafter | ⟨more, hafter⟩ := m.after_cases
    · rw [hafter]
      rfl
    · rw [hafter, List.nil_append, List.dropWhile_cons, hp]
      rfl
  | cons ch text ih =>
    rw [List.cons_append, List.dropWhile_cons, List.dropWhile_cons, ih]
    split
    · rfl
    · rw [List.cons_append]

end Embedding

/-- The place in the longer line. -/
def Cursor.placed (m : Embedding) (c : Cursor) : Cursor := ⟨m.before + c.pos, c.rest ++ m.after⟩

/-- The token in the longer line. -/
def Token.placed (m : Embedding) (t : Token) : Token := { t with start := m.before + t.start }

namespace Cursor

variable {c start : Cursor}

theorem placed_pos (m : Embedding) (c : Cursor) : (c.placed m).pos = m.before + c.pos := rfl

theorem skipWhile_placed {p : Char → Bool} (hp : p ';' = false) (c : Cursor) :
    (c.placed m).skipWhile p = (c.skipWhile p).placed m := by
  simp only [skipWhile, placed, m.takeWhile_append_after hp, m.dropWhile_append_after hp, Nat.add_assoc]

/-- Characters of any kind, if they end before the line does. -/
theorem skipWhile_placed_of_stops {p : Char → Bool} (hstops : (c.skipWhile p).rest ≠ []) :
    (c.placed m).skipWhile p = (c.skipWhile p).placed m := by
  have htake : (c.rest ++ m.after).takeWhile p = c.rest.takeWhile p := by
    rw [List.takeWhile_append, if_neg]
    intro hall
    have hself : c.rest.takeWhile p = c.rest :=
      List.IsPrefix.eq_of_length ( List.takeWhile_prefix p) hall
    exact hstops (List.dropWhile_eq_nil_iff.2 (List.takeWhile_eq_self_iff.1 hself))
  have hdrop : (c.rest ++ m.after).dropWhile p = c.rest.dropWhile p ++ m.after := by
    rw [List.dropWhile_append, if_neg]
    exact fun hempty => hstops (List.isEmpty_iff.1 hempty)
  simp only [skipWhile, placed, htake, hdrop, Nat.add_assoc]

theorem skipSpaces_placed (c : Cursor) : (c.placed m).skipSpaces = c.skipSpaces.placed m :=
  skipWhile_placed rfl c

theorem skip_placed {k : Nat} (hk : k ≤ c.rest.length) : (c.placed m).skip k = (c.skip k).placed m := by
  simp only [skip, placed, List.length_append, List.drop_append_of_le_length hk, Nat.add_assoc]
  rw [Nat.min_eq_left hk, Nat.min_eq_left (Nat.le_add_right_of_le hk)]

theorem peekAt?_placed {k : Nat} (ch : Char) (hk : k ≤ c.rest.length) (hch : ch ≠ ';') :
    (c.placed m).peekAt? k = some ch ↔ c.peekAt? k = some ch := by
  simp only [peekAt?, placed]
  obtain hlt | rfl := Nat.lt_or_eq_of_le hk
  · rw [List.getElem?_append_left hlt]
  · rw [List.getElem?_append_right (Nat.le_refl _), Nat.sub_self, List.getElem?_eq_none (Nat.le_refl _)]
    obtain hafter | ⟨more, hafter⟩ := m.after_cases
    · simp [hafter]
    · simp [hafter, Ne.symm hch]

theorem peek?_placed (ch : Char) (hch : ch ≠ ';') :
    (c.placed m).peek? = some ch ↔ c.peek? = some ch := by
  simpa only [peek?, peekAt?, List.head?_eq_getElem?] using
    peekAt?_placed (k := 0) ch (Nat.zero_le _) hch

theorem any_peekAt?_placed {k : Nat} {p : Char → Bool} (hk : k ≤ c.rest.length) (hp : p ';' = false) :
    ((c.placed m).peekAt? k).any p = (c.peekAt? k).any p := by
  simp only [peekAt?, placed]
  obtain hlt | rfl := Nat.lt_or_eq_of_le hk
  · rw [List.getElem?_append_left hlt]
  · rw [List.getElem?_append_right (Nat.le_refl _), Nat.sub_self, List.getElem?_eq_none (Nat.le_refl _)]
    obtain hafter | ⟨more, hafter⟩ := m.after_cases
    · simp [hafter]
    · simp [hafter, hp]

theorem nextIs_placed {p : Char → Bool} (hp : p ';' = false) (c : Cursor) :
    (c.placed m).nextIs p = c.nextIs p := by
  simpa only [nextIs, peek?, peekAt?, List.head?_eq_getElem?] using
    any_peekAt?_placed (k := 0) (c := c) (Nat.zero_le _) hp

theorem startsWith_placed (word : String) (hword : ';' ∉ word.toList) (c : Cursor) :
    (c.placed m).startsWith word = c.startsWith word := by
  simp only [startsWith, placed]
  generalize word.toList = chars at hword
  generalize c.rest = rest
  induction chars generalizing rest with
  | nil => simp
  | cons ch chars ih =>
    rw [List.mem_cons, not_or] at hword
    cases rest with
    | nil =>
      obtain hafter | ⟨more, hafter⟩ := m.after_cases
      · rw [hafter, List.append_nil]
      · rw [hafter, List.nil_append, List.isPrefixOf_cons_cons, beq_eq_false_iff_ne.2 (Ne.symm hword.1)]
        rfl
    | cons first rest => simp only [List.cons_append, List.isPrefixOf_cons_cons, ih hword.2]

theorem startsWith_placed_of_startsWith {word : String} (h : c.startsWith word = true) :
    (c.placed m).startsWith word = true := by
  rw [startsWith, List.isPrefixOf_iff_prefix] at h ⊢
  exact h.trans (List.prefix_append _ _)

/-- Where the line ends, the longer line ends or has its semicolon. -/
theorem stops_placed {p : Char → Bool} (hp : p ';' = true) (c : Cursor) :
    ((c.placed m).atEnd || (c.placed m).nextIs p) = (c.atEnd || c.nextIs p) := by
  obtain ⟨pos, rest⟩ := c
  cases rest with
  | nil =>
    obtain hafter | ⟨more, hafter⟩ := m.after_cases
    · simp [placed, atEnd, hafter]
    · simp [placed, atEnd, nextIs, peek?, hafter, hp]
  | cons first rest => rfl

theorem charsSince_placed (hstart : start.IsIn line) (hc : c.IsIn line) :
    (start.placed m).charsSince (c.placed m) = start.charsSince c := by
  have hlength := hstart.pos_add_length
  have hlength' := hc.pos_add_length
  simp only [charsSince, placed, Nat.add_sub_add_left]
  rw [List.take_append_of_le_length (by omega)]

theorem textSince_placed (hstart : start.IsIn line) (hc : c.IsIn line) :
    (start.placed m).textSince (c.placed m) = start.textSince c := by
  rw [textSince, charsSince_placed hstart hc, textSince]

/-! ### Tokens -/

/-- The token with the place behind it, in the longer line. -/
def placedToken (m : Embedding) (found : Token × Cursor) : Token × Cursor :=
  (found.1.placed m, found.2.placed m)

theorem emit_placed {kind : TokenKind} (hstart : start.IsIn line) (hc : c.IsIn line) :
    (start.placed m).emit (c.placed m) kind = placedToken m (start.emit c kind) := by
  rw [emit, textSince_placed hstart hc]
  rfl

theorem emitEof_placed (start : Cursor) : (start.placed m).emitEof = placedToken m start.emitEof := rfl

theorem emitSkip_placed {kind : TokenKind} {k : Nat} (hstart : start.IsIn line) (hk : k ≤ start.rest.length) :
    (start.placed m).emitSkip k kind = placedToken m (start.emitSkip k kind) := by
  rw [emitSkip, skip_placed hk, emit_placed hstart (hstart.skip k), emitSkip]

theorem reference?_placed (hstart : start.IsIn line) {ch : Char} (hfirst : start.peek? = some ch) :
    (start.placed m).reference? = start.reference?.map (placedToken m) := by
  have hone := length_of_peek? hfirst
  have hskip := hstart.skip 1
  simp only [reference?, skip_placed hone, peek?_placed (m := m) (c := start.skip 1) '\x7b' (by decide),
    startsWith_placed (m := m) "((" (by decide)]
  split
  · rename_i hbrace
    have hname := (hskip.skip 1).skipSpaces
    have hlast := hname.skipWhile Text.isNameChar
    simp only [skip_placed (length_of_peek? hbrace), skipSpaces_placed, skipWhile_placed (p := Text.isNameChar) rfl,
      textSince_placed hname hlast, placed_pos, ne_eq, Nat.add_right_inj,
      peek?_placed (m := m) '\x7d' (by decide)]
    split
    · rename_i hclose
      rw [skip_placed (length_of_peek? hclose.2), emit_placed hstart (hlast.skipSpaces.skip 1)]
      rfl
    · rfl
  · split
    · rename_i hparens
      have hthree : 3 ≤ start.rest.length := by
        have hlength := length_of_startsWith "((" hparens
        simp only [skip, List.length_drop] at hlength
        exact Nat.add_le_of_le_sub hone hlength
      rw [emitSkip_placed hstart hthree]
      rfl
    · have hlast := hskip.skipWhile Text.isNameChar
      simp only [skipWhile_placed (p := Text.isNameChar) rfl, placed_pos, ne_eq, Nat.add_right_inj,
        textSince_placed hskip hlast, emit_placed hstart hlast]
      split
      · rfl
      · rfl

theorem textFrom_placed (stops : String) (hstops : ';' ∈ stops.toList) (hstart : start.IsIn line)
    (hc : c.IsIn line) : (start.placed m).textFrom stops (c.placed m) = placedToken m (start.textFrom stops c) := by
  have hstop : ((';' : Char) != '$' && !stops.toList.contains ';') = false := by
    simp [hstops]
  simp only [textFrom, skipWhile_placed (p := fun ch => ch != '$' && !stops.toList.contains ch) hstop,
    placed_pos, Nat.add_right_inj, emitEof_placed, emit_placed hstart (hc.skipWhile _)]
  split
  · rfl
  · rfl

theorem textToken_placed {stops : String} (hstops : ';' ∈ stops.toList) (hstart : start.IsIn line) :
    (start.placed m).textToken stops = placedToken m (start.textToken stops) := by
  simp only [textToken, peek?_placed (m := m) (c := start) '$' (by decide)]
  split
  · rename_i hdollar
    rw [reference?_placed hstart hdollar, skip_placed (length_of_peek? hdollar),
      textFrom_placed stops hstops hstart (hstart.skip 1)]
    cases start.reference? with
    | none => rfl
    | some found => rfl
  · exact textFrom_placed stops hstops hstart hstart

theorem endNumber_placed (hstart : start.IsIn line) (hc : c.IsIn line) (isFloat : Bool) :
    (start.placed m).endNumber (c.placed m) isFloat = placedToken m (start.endNumber c isFloat) := by
  simp only [endNumber, nextIs_placed (m := m) (p := Text.isLetter) (by decide), charsSince_placed hstart hc,
    textFrom_placed unquotedStops (by decide) hstart hc, emit_placed hstart hc, emitEof_placed]
  split
  · rfl
  · split
    · rfl
    · rfl

theorem exponentEnd?_placed (c : Cursor) :
    (c.placed m).exponentEnd? = c.exponentEnd?.map (placed m) := by
  simp only [exponentEnd?, peek?_placed (m := m) (c := c) 'e' (by decide),
    peek?_placed (m := m) (c := c) 'E' (by decide)]
  split
  · rename_i hexponent
    have hone : 1 ≤ c.rest.length := hexponent.elim length_of_peek? length_of_peek?
    simp only [peekAt?_placed (m := m) '+' hone (by decide),
      peekAt?_placed (m := m) '-' hone (by decide)]
    generalize hoffset : (if c.peekAt? 1 = some '+' ∨ c.peekAt? 1 = some '-' then 2 else 1) = offset
    have hle : offset ≤ c.rest.length := by
      rw [← hoffset]
      split
      · rename_i hsign
        obtain ⟨sign, hget⟩ : ∃ sign, c.rest[1]? = some sign := hsign.elim (⟨_, ·⟩) (⟨_, ·⟩)
        exact (List.getElem?_eq_some_iff.1 hget).1
      · exact hone
    rw [any_peekAt?_placed hle (by decide), skip_placed hle, skipWhile_placed (by decide)]
    split
    · rfl
    · rfl
  · rfl

theorem number_placed (hstart : start.IsIn line) :
    (start.placed m).number = placedToken m start.number := by
  have hwhole := hstart.skipWhile isNumberChar
  simp only [number, skipWhile_placed (p := isNumberChar) (by decide),
    peek?_placed (m := m) (c := start.skipWhile isNumberChar) '.' (by decide)]
  split
  · rename_i hpoint
    have hone := length_of_peek? hpoint
    have hfraction := (hwhole.skip 1).skipWhile isNumberChar
    simp only [peekAt?_placed (m := m) '.' hone (by decide), placed_pos, Nat.add_right_inj,
      skip_placed hone, skipWhile_placed (p := isNumberChar) (by decide), exponentEnd?_placed,
      endNumber_placed hstart hwhole, endNumber_placed hstart hfraction, emitEof_placed]
    split
    · split
      · rfl
      · rfl
    · cases hexponent : (((start.skipWhile isNumberChar).skip 1).skipWhile isNumberChar).exponentEnd? with
      | none => rfl
      | some stop => exact endNumber_placed hstart (hfraction.exponentEnd? hexponent) true
  · rw [exponentEnd?_placed, endNumber_placed hstart hwhole]
    cases hexponent : (start.skipWhile isNumberChar).exponentEnd? with
    | none => rfl
    | some stop => exact endNumber_placed hstart (hwhole.exponentEnd? hexponent) true

theorem word_placed (hstart : start.IsIn line) : (start.placed m).word = placedToken m start.word := by
  simp only [word, startsWith_placed (m := m) "true" (by decide),
    startsWith_placed (m := m) "false" (by decide),
    startsWith_placed (m := m) "format" (by decide)]
  split
  · exact emitSkip_placed hstart (length_of_startsWith "true" ‹_›)
  · split
    · exact emitSkip_placed hstart (length_of_startsWith "false" ‹_›)
    · split
      · exact emitSkip_placed hstart (length_of_startsWith "format" ‹_›)
      · rfl

theorem doubled_placed {ch second : Char} (hstart : start.IsIn line) (hfirst : start.peek? = some ch)
    (hsecond : second ≠ ';') (kind : TokenKind) (single : Option TokenKind) :
    (start.placed m).doubled second kind single = placedToken m (start.doubled second kind single) := by
  have hone := length_of_peek? hfirst
  simp only [doubled, peekAt?_placed (m := m) second hone hsecond]
  split
  · rename_i hget
    exact emitSkip_placed hstart (List.getElem?_eq_some_iff.1 hget).1
  · split
    · exact emitSkip_placed hstart hone
    · rfl

theorem expressionTokenAt_placed {ch : Char} (hstart : start.IsIn line) (hfirst : start.peek? = some ch) :
    (start.placed m).expressionTokenAt ch = placedToken m (start.expressionTokenAt ch) := by
  have hone := length_of_peek? hfirst
  unfold expressionTokenAt
  split
  · rw [reference?_placed hstart hfirst]
    cases start.reference? with
    | none => rfl
    | some found => rfl
  all_goals first | exact emitSkip_placed hstart hone | exact doubled_placed hstart hfirst (by decide) _ _ | skip
  rw [number_placed hstart, word_placed hstart]
  split
  · rfl
  · rfl

theorem expressionToken_placed (hc : c.IsIn line) :
    (c.placed m).expressionToken = placedToken m c.expressionToken := by
  have hspaces := hc.skipSpaces
  simp only [expressionToken, skipSpaces_placed]
  cases hpeek : c.skipSpaces.peek? with
  | some ch =>
    have hlong : (c.skipSpaces.placed m).peek? = some ch := by
      obtain ⟨rest, hrest⟩ : ∃ rest, c.skipSpaces.rest = ch :: rest := List.head?_eq_some_iff.1 hpeek
      simp [placed, peek?, hrest]
    rw [hlong]
    exact expressionTokenAt_placed hspaces hpeek
  | none =>
    have hrest : c.skipSpaces.rest = [] := List.head?_eq_none_iff.1 hpeek
    dsimp only
    rw [← emitEof_placed, placed, hrest, List.nil_append]
    obtain hafter | ⟨more, hafter⟩ := m.after_cases
    · rw [hafter]
      rfl
    · rw [hafter]
      rfl

/-- The token of a quoted text runs out of the line: there is no quotation mark on the way. -/
structure RunsOut (c : Cursor) (found : Token × Cursor) : Prop where
  unclosed : '"' ∉ c.rest
  atEnd : found.2.rest = []
  isText : found.1.kind = .text ∨ found.1.kind = .eof

theorem quotedFrom_placed (hstart : start.IsIn line) (hc : c.IsIn line) :
    (start.placed m).textFrom quotedStops (c.placed m) = placedToken m (start.textFrom quotedStops c) ∨
      c.RunsOut (start.textFrom quotedStops c) := by
  have hlast := hc.skipWhile fun ch => ch != '$' && !quotedStops.toList.contains ch
  by_cases hrest : (c.skipWhile fun ch => ch != '$' && !quotedStops.toList.contains ch).rest = []
  · right
    have hnone : '"' ∉ c.rest := fun hmem =>
      absurd (List.dropWhile_eq_nil_iff.1 hrest '"' hmem) (by decide)
    simp only [textFrom]
    split
    · rename_i hstay
      have hlength := hstart.pos_add_length
      have hlength' := hlast.pos_add_length
      rw [hrest, List.length_nil, hstay] at hlength'
      exact ⟨hnone, List.length_eq_zero_iff.1 (by simp only [emitEof]; omega), .inr rfl⟩
    · exact ⟨hnone, hrest, .inl rfl⟩
  · left
    simp only [textFrom, skipWhile_placed_of_stops hrest, placed_pos, Nat.add_right_inj, emitEof_placed,
      emit_placed hstart hlast]
    split
    · rfl
    · rfl

/-- Of a quoted text, the token is the same unless it runs out of the line. -/
theorem quotedToken_placed (hc : c.IsIn line) :
    (c.placed m).textToken quotedStops = placedToken m (c.textToken quotedStops) ∨
      c.RunsOut (c.textToken quotedStops) := by
  simp only [textToken, peek?_placed (m := m) (c := c) '$' (by decide)]
  split
  · rename_i hdollar
    rw [reference?_placed hc hdollar, skip_placed (length_of_peek? hdollar)]
    cases c.reference? with
    | some found => exact .inl rfl
    | none =>
      refine (quotedFrom_placed hc (hc.skip 1)).imp id fun hruns => ⟨?_, hruns.atEnd, hruns.isText⟩
      obtain ⟨rest, hrest⟩ : ∃ rest, c.rest = '$' :: rest := List.head?_eq_some_iff.1 hdollar
      have hunclosed := hruns.unclosed
      simp only [skip, hrest, List.drop_one, List.tail_cons] at hunclosed
      rw [hrest, List.mem_cons, not_or]
      exact ⟨by decide, hunclosed⟩
  · exact quotedFrom_placed hc hc

end Cursor

namespace Parser

variable {α : Type}

theorem walkTable_append_after {table : List (List Char × α)} (htable : ∀ entry ∈ table, ';' ∉ entry.1)
    (text : List Char) : walkTable table (text ++ m.after) = walkTable table text := by
  induction text generalizing table with
  | nil =>
    obtain hafter | ⟨more, hafter⟩ := m.after_cases
    · rw [hafter]
      rfl
    · rw [hafter, List.nil_append, walkTable, walkTable, if_pos]
      -- No word goes on with a semicolon, so the walk ends here as it does at the end of a line.
      refine List.isEmpty_iff.2 (List.filterMap_eq_nil_iff.2 fun entry hentry => ?_)
      obtain ⟨word, a⟩ := entry
      cases word with
      | nil => rfl
      | cons d ds =>
        have hd : d ≠ ';' := by
          rintro rfl
          exact htable _ hentry List.mem_cons_self
        exact if_neg hd
  | cons ch text ih =>
    rw [List.cons_append, walkTable, walkTable, ih]
    intro entry hentry
    obtain ⟨⟨word, a⟩, hword, hfurther⟩ := List.mem_filterMap.1 hentry
    cases word with
    | nil => cases hfurther
    | cons d ds =>
      dsimp only at hfurther
      split at hfurther
      · cases hfurther
        exact fun hmem => htable _ hword (List.mem_cons_of_mem _ hmem)
      · cases hfurther

theorem walkTable_le (table : List (List Char × α)) (text : List Char) :
    (walkTable table text).1 ≤ text.length := by
  induction text generalizing table with
  | nil => exact Nat.le_refl 0
  | cons ch text ih =>
    rw [walkTable]
    split
    · exact Nat.zero_le _
    · exact Nat.succ_le_succ (ih _)

end Parser

end TwinShell.Language
