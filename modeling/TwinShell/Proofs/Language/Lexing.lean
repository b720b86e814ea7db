import TwinShell.Proofs.Language.Progress

/-!
# Tokens one after the other

Reading a token either finds nothing and leaves the cursor where the token would start, or moves the cursor on, and the text of the token is what it moved over. This is all that the parser relies on when it goes back to the start of a token or reports it. So reading comes to an end wherever it starts, in as many tokens as there are characters left and one more; and the tokens of a text put together are the text up to where it stops.
-/

namespace TwinShell.Language

/-- What a token `t` that starts at the offset `start` of a line is, with the cursor left at `c`. -/
structure TokenAt (line : List Char) (start : Nat) (t : Token) (c : Cursor) : Prop where
  start_eq : t.start = start
  stays : t.kind = .eof → c = .seek line start
  advances : t.kind ≠ .eof → start < c.pos ∧ c.pos ≤ line.length ∧ c = .seek line c.pos
  text : t.kind ≠ .eof → t.text.toList = (line.drop start).take (c.pos - start)
  integer : ∀ n, t.kind = .int n → IsInteger t.text.toList n

theorem Cursor.Found.tokenAt {line : List Char} {start : Cursor} {found : Token × Cursor}
    (h : start.Found found) (hstart : start.IsIn line) : TokenAt line start.pos found.1 found.2 := by
  have hfound := hstart.found h
  cases h with
  | nothing => exact ⟨rfl, fun _ => hstart.eq_seek, fun h => absurd rfl h, fun h => absurd rfl h, nofun⟩
  | upTo hreaches hpos hfits =>
    refine ⟨rfl, fun h => absurd h hfits.ne_eof, fun _ => ⟨hpos, hfound.pos_le_length, hfound.eq_seek⟩, ?_, ?_⟩
    · intro _
      rw [emit, textSince, String.toList_ofList, charsSince, hstart.rest_eq]
    · intro n h
      rw [emit, textSince, String.toList_ofList]
      exact hfits.integer n h

/-! ### One token -/

/-- The ways to read a token: as part of an expression, or of a text. -/
inductive TokenMode where
  | expression
  | text (mode : TextMode)

namespace TokenMode

def token : TokenMode → Cursor → Token × Cursor
  | .expression => Cursor.expressionToken
  | .text mode => mode.token

/-- How many characters are skipped before a token: the blanks before a part of an expression, and nothing in a text. -/
def skipped : TokenMode → List Char → Nat
  | .expression, rest => (rest.takeWhile Text.isSpaceOrTab).length
  | .text _, _ => 0

theorem isIn_token (mode : TokenMode) {line : List Char} {c : Cursor} (hc : c.IsIn line) :
    (mode.token c).2.IsIn line := by
  cases mode with
  | expression => exact hc.expressionToken
  | text mode => exact hc.textToken mode.stops

theorem tokenAt_token (mode : TokenMode) {line : List Char} {c : Cursor} (hc : c.IsIn line) :
    TokenAt line (c.pos + mode.skipped c.rest) (mode.token c).1 (mode.token c).2 := by
  cases mode with
  | expression => exact c.found_expressionToken.tokenAt hc.skipSpaces
  | text mode => exact (Cursor.found_textToken mode.stops c).tokenAt hc

/-! ### All tokens -/

/-- Reads at most `n` tokens and stops at an `eof`: the tokens before it, and where the cursor is left. -/
def tokens? (mode : TokenMode) : Nat → Cursor → Option (List Token × Cursor)
  | 0, _ => none
  | n + 1, c =>
    let (token, next) := mode.token c
    if token.kind = .eof then some ([], next)
    else (mode.tokens? n next).map fun (tokens, last) => (token :: tokens, last)

/-- Where the tokens of a text end: they are all of the text up to there, and nothing more fits. -/
structure TextEnds (mode : TextMode) (c : Cursor) (tokens : List Token) (last : Cursor) : Prop where
  whole : c.rest = tokens.flatMap (·.text.toList) ++ last.rest
  stops : ∀ ch ∈ last.peek?, ch ∈ mode.stops.toList

/-- Every token takes up a character, so an `eof` is reached when none is left or before. -/
theorem exists_tokens? (mode : TokenMode) {line : List Char} {c : Cursor} {n : Nat} (hc : c.IsIn line)
    (hn : c.rest.length < n) : ∃ tokens last, mode.tokens? n c = some (tokens, last) ∧ last.IsIn line ∧
      ∀ m, mode = text m → TextEnds m c tokens last := by
  induction n generalizing c with
  | zero => cases hn
  | succ n ih =>
    have htoken := mode.tokenAt_token hc
    have hnext := mode.isIn_token hc
    by_cases heof : (mode.token c).1.kind = .eof
    · refine ⟨[], (mode.token c).2, if_pos heof, hnext, ?_⟩
      rintro m rfl
      have hstays : ((text m).token c).2 = c := (htoken.stays heof).trans hc.eq_seek.symm
      rw [hstays]
      exact ⟨rfl, Cursor.stops_of_textToken heof⟩
    · obtain ⟨hpos, -, -⟩ := htoken.advances heof
      have hless := hc.length_le (k := 1) hnext (by omega)
      obtain ⟨tokens, last, htokens, hlast, hends⟩ := ih hnext (by omega)
      refine ⟨(mode.token c).1 :: tokens, last, ?_, hlast, ?_⟩
      · simp only [tokens?, if_neg heof, htokens, Option.map_some]
      · rintro m rfl
        obtain ⟨hwhole, hstops⟩ := hends m rfl
        refine ⟨?_, hstops⟩
        rw [List.flatMap_cons, List.append_assoc, ← hwhole]
        exact (Cursor.found_textToken m.stops c).rest_eq heof

end TokenMode

/-- A token is what the cursor moved over, or nothing and the cursor stays. So tokens of one kind come to an end, and those of a text are the text up to its end. -/
theorem tokens_lose_nothing (line : List Char) {p : Nat} (hp : p ≤ line.length) (mode : TokenMode) :
    TokenAt line (p + mode.skipped (line.drop p)) (mode.token (.seek line p)).1 (mode.token (.seek line p)).2 ∧
    ∃ tokens last, mode.tokens? (line.length + 1) (.seek line p) = some (tokens, last) ∧
      ∀ m, mode = .text m →
        p ≤ last.pos ∧ last = .seek line last.pos ∧
        tokens.flatMap (·.text.toList) = (line.drop p).take (last.pos - p) ∧
        (last.pos = line.length ∨ ∃ ch ∈ m.stops.toList, (line.drop last.pos).head? = some ch) := by
  have hpos : (Cursor.seek line p).pos = p := Nat.min_eq_left hp
  have hc := Cursor.IsIn.atSeek line p
  refine ⟨?_, ?_⟩
  · have htoken := mode.tokenAt_token hc
    rwa [hpos] at htoken
  · obtain ⟨tokens, last, htokens, hlast, hends⟩ :=
      mode.exists_tokens? (n := line.length + 1) hc (by simp only [Cursor.seek, List.length_drop]; omega)
    refine ⟨tokens, last, htokens, ?_⟩
    intro m hm
    obtain ⟨hwhole, hstops⟩ := hends m hm
    replace hwhole : line.drop p = tokens.flatMap (·.text.toList) ++ line.drop last.pos :=
      hwhole.trans (by rw [hlast.rest_eq])
    have hle := hlast.pos_le_length
    have hlength := congrArg List.length hwhole
    simp only [List.length_append, List.length_drop] at hlength
    refine ⟨by omega, hlast.eq_seek, ?_, ?_⟩
    · rw [hwhole, List.take_left' (by omega)]
    · rw [Cursor.peek?, hlast.rest_eq] at hstops
      cases hnext : (line.drop last.pos).head? with
      | none =>
        rw [List.head?_eq_none_iff, List.drop_eq_nil_iff] at hnext
        exact .inl (Nat.le_antisymm hle hnext)
      | some ch => exact .inr ⟨ch, hstops ch hnext, rfl⟩

/-- A dollar sign that starts no reference is part of the text, and an integer is read without its underscore. -/
theorem tokens_lose_nothing_stray :
    (∃ tokens last, (TokenMode.text .unquoted).tokens? 10 (.seek "a$ $x;1_0".toList 1) = some (tokens, last) ∧
      tokens.map (·.text) = ["$ ", "$x"] ∧ tokens.flatMap (·.text.toList) = "$ $x".toList ∧
      last = .seek "a$ $x;1_0".toList 5) ∧ IsInteger "1_0".toList 10 := by
  refine ⟨?_, (tokens_lose_nothing "a$ $x;1_0".toList (p := 6) (by decide) .expression).1.integer 10
    (by decide +kernel)⟩
  obtain ⟨-, tokens, last, htokens, hends⟩ :=
    tokens_lose_nothing "a$ $x;1_0".toList (p := 1) (by decide) (.text .unquoted)
  obtain ⟨-, hlast, htexts, -⟩ := hends .unquoted rfl
  have hread : ((TokenMode.text .unquoted).tokens? 10 (.seek "a$ $x;1_0".toList 1)).map
      (fun (tokens, last) => (tokens.map (·.text), last.pos)) = some (["$ ", "$x"], 5) := by decide +kernel
  rw [show "a$ $x;1_0".toList.length + 1 = 10 from rfl] at htokens
  rw [htokens, Option.map_some, Option.some.injEq, Prod.mk.injEq] at hread
  obtain ⟨hwords, hpos⟩ := hread
  rw [hpos] at hlast htexts
  exact ⟨tokens, last, htokens, hwords, htexts, hlast⟩

end TwinShell.Language
