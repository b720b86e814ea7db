import TwinShell.Language.Parser.Command

/-!
# What a parser reads

`Reads p text a rest` says that `p`, standing before `text` and then `rest`, reads exactly `text` and gives `a`. The rules of the grammar are put together by binds, so what a rule reads is put together from what its parts read; `Reads.bind` is that step. What follows is part of the statement because most rules look at the character behind what they read.
-/

namespace TwinShell.Language

variable {α β : Type}

/-- Before `text` and then `rest`, the parser reads exactly `text` and gives `a`, wherever it stands and whatever rules surround it. -/
def Reads (p : Parser α) (text : List Char) (a : α) (rest : List Char) : Prop :=
  ∀ ctx pos, p ctx ⟨pos, text ++ rest⟩ = .ok a ⟨pos + text.length, rest⟩

/-- Whether a text does not start with a character that satisfies `p`. -/
def headAvoids (p : Char → Bool) (text : List Char) : Bool := !text.head?.any p

theorem isSpaceOrTab_of_mem : ∀ c ∈ [' '], Text.isSpaceOrTab c :=
  fun _ hc => List.mem_singleton.1 hc ▸ rfl

theorem Parser.bind_apply (p : Parser α) (f : α → Parser β) (ctx : Context) (c : Cursor) :
    (p >>= f) ctx c = match p ctx c with
      | .ok a c => f a ctx c
      | .error e => .error e
      | .exhausted => .exhausted :=
  rfl

namespace Cursor

theorem skipWhile_append {p : Char → Bool} {text rest : List Char} (pos : Nat)
    (htext : ∀ c ∈ text, p c) (hrest : headAvoids p rest) :
    skipWhile p ⟨pos, text ++ rest⟩ = ⟨pos + text.length, rest⟩ := by
  have htake : rest.takeWhile p = [] := by
    cases rest with
    | nil => rfl
    | cons c rest => simp_all [headAvoids]
  have hdrop : rest.dropWhile p = rest := by
    cases rest with
    | nil => rfl
    | cons c rest => simp_all [headAvoids]
  simp only [skipWhile, List.takeWhile_append_of_pos htext, List.dropWhile_append_of_pos htext,
    htake, hdrop, List.append_nil]

theorem skipWhile_of_headAvoids {p : Char → Bool} {rest : List Char} (pos : Nat)
    (hrest : headAvoids p rest) : skipWhile p ⟨pos, rest⟩ = ⟨pos, rest⟩ :=
  skipWhile_append pos (fun _ hc => absurd hc List.not_mem_nil) hrest

theorem skip_append (text rest : List Char) (pos : Nat) :
    skip ⟨pos, text ++ rest⟩ text.length = ⟨pos + text.length, rest⟩ := by
  simp [skip]

theorem charsSince_append (text rest : List Char) (pos : Nat) :
    charsSince ⟨pos, text ++ rest⟩ ⟨pos + text.length, rest⟩ = text := by
  simp [charsSince]

theorem textSince_append (text : String) (rest : List Char) (pos : Nat) :
    textSince ⟨pos, text.toList ++ rest⟩ ⟨pos + text.toList.length, rest⟩ = text := by
  rw [textSince, charsSince_append, String.ofList_toList]

theorem charsSince_skipWhile (p : Char → Bool) (c : Cursor) :
    c.charsSince (c.skipWhile p) = c.rest.takeWhile p := by
  rw [charsSince, skipWhile, Nat.add_sub_cancel_left]
  exact (List.prefix_iff_eq_take.1 (List.takeWhile_prefix p)).symm

theorem startsWith_append (word : String) (rest : List Char) (pos : Nat) :
    startsWith ⟨pos, word.toList ++ rest⟩ word = true := by
  simp [startsWith]

end Cursor

namespace Reads

theorem pure (a : α) (rest : List Char) : Reads (Pure.pure a) [] a rest := fun _ _ => rfl

theorem bind {p : Parser α} {f : α → Parser β} {s t rest : List Char} {a : α} {b : β}
    (hp : Reads p s a (t ++ rest)) (hf : Reads (f a) t b rest) : Reads (p >>= f) (s ++ t) b rest := by
  intro ctx pos
  rw [Parser.bind_apply, List.append_assoc, hp ctx pos]
  simp only [hf ctx (pos + s.length), List.length_append, Nat.add_assoc]

/-- A first part that reads nothing. -/
theorem bindNil {p : Parser α} {f : α → Parser β} {text rest : List Char} {a : α} {b : β}
    (hp : Reads p [] a (text ++ rest)) (hf : Reads (f a) text b rest) :
    Reads (p >>= f) text b rest :=
  bind (s := []) hp hf

/-- A last part that only gives a result. -/
theorem bindPure {p : Parser α} {f : α → Parser β} {text rest : List Char} {a : α} {b : β}
    (hp : Reads p text a rest) (hf : f a = Pure.pure b) : Reads (p >>= f) text b rest := by
  rw [← List.append_nil text]
  exact bind hp (hf ▸ pure b rest)

theorem traced (name : String) {p : Parser α} {text rest : List Char} {a : α}
    (hp : Reads p text a rest) : Reads (Parser.traced name p) text a rest := by
  intro ctx pos
  rw [Parser.traced]
  split
  · exact hp ctx pos
  · exact hp _ pos

/-- A rule that notes where it starts, and does not come back to it. -/
theorem cursor {f : Cursor → Parser β} {text rest : List Char} {b : β}
    (hf : ∀ start, Reads (f start) text b rest) : Reads (Parser.cursor >>= f) text b rest :=
  fun ctx pos => hf _ ctx pos

theorem look {f : Cursor → α} {a : α} {rest : List Char} (h : ∀ pos, f ⟨pos, rest⟩ = a) :
    Reads (Parser.look f) [] a rest := by
  intro ctx pos
  rw [List.nil_append, Parser.look, h]
  rfl

theorem tryExact (word : String) (rest : List Char) :
    Reads (Parser.tryExact word) word.toList true rest := by
  intro ctx pos
  rw [Parser.tryExact, Cursor.startsWith_append, if_pos rfl, ← String.length_toList,
    Cursor.skip_append]

theorem tryExact_false {word : String} {rest : List Char}
    (h : word.toList.isPrefixOf rest = false) : Reads (Parser.tryExact word) [] false rest := by
  intro ctx pos
  simp only [List.nil_append, Parser.tryExact, Cursor.startsWith, h, List.length_nil, Nat.add_zero,
    Bool.false_eq_true, if_false]

theorem expect (word : String) (rest : List Char) :
    Reads (Parser.expect word) word.toList () rest :=
  bindPure (tryExact word rest) rfl

theorem skipSpaces {blanks rest : List Char} (hblanks : ∀ c ∈ blanks, Text.isSpaceOrTab c)
    (hrest : headAvoids Text.isSpaceOrTab rest) : Reads Parser.skipSpaces blanks () rest := by
  intro ctx pos
  rw [Parser.skipSpaces, Parser.move, Cursor.skipSpaces, Cursor.skipWhile_append pos hblanks hrest]

theorem skipNoSpaces {rest : List Char} (hrest : headAvoids Text.isSpaceOrTab rest) :
    Reads Parser.skipSpaces [] () rest :=
  skipSpaces (by simp) hrest

theorem skipSpace {rest : List Char} (hrest : headAvoids Text.isSpaceOrTab rest) :
    Reads Parser.skipSpaces [' '] () rest :=
  skipSpaces isSpaceOrTab_of_mem hrest

theorem commandEnds {rest : List Char} (hrest : headAvoids Text.isSpaceOrTab rest) :
    Reads Parser.commandEnds [] (rest.isEmpty || rest.head?.any Parser.isCommandStop) rest :=
  bindNil (skipNoSpaces hrest) (look fun _ => rfl)

/-- A word with blanks around it. -/
theorem wordOf {p : Char → Bool} {before after rest : List Char} {name : String}
    (hspace : ∀ c, Text.isSpaceOrTab c → p c = false)
    (hbefore : ∀ c ∈ before, Text.isSpaceOrTab c) (hafter : ∀ c ∈ after, Text.isSpaceOrTab c)
    (hne : name ≠ "") (hname : ∀ c ∈ name.toList, p c) (hlast : headAvoids p (after ++ rest))
    (hblank : headAvoids Text.isSpaceOrTab rest) :
    Reads (Parser.wordOf p) (before ++ (name.toList ++ after)) name rest := by
  have hfirst : headAvoids Text.isSpaceOrTab (name.toList ++ (after ++ rest)) := by
    have hne' : name.toList ≠ [] := fun h => hne (String.toList_inj.1 h)
    obtain ⟨c, cs, hcs⟩ := List.exists_cons_of_ne_nil hne'
    have hc : p c := hname c (by simp [hcs])
    have hc' : Text.isSpaceOrTab c = false := by
      cases h : Text.isSpaceOrTab c with
      | false => rfl
      | true => simp [hspace c h] at hc
    simp [hcs, headAvoids, hc']
  intro ctx pos
  simp only [Parser.wordOf, Parser.bind_apply, Parser.skipSpaces, Parser.move, Parser.cursor,
    List.append_assoc, Cursor.skipSpaces, Cursor.skipWhile_append _ hbefore hfirst,
    Cursor.skipWhile_append _ hname hlast, Cursor.skipWhile_append _ hafter hblank,
    Cursor.textSince_append]
  rw [List.length_append, List.length_append, ← Nat.add_assoc, ← Nat.add_assoc]
  rfl

end Reads

end TwinShell.Language
