import TwinShell.Proofs.Language.Scanning

/-!
# Properties of what is read

Whatever a parser reads, wherever it stands, may be known to have a property. Such knowledge is put together along the binds of a rule, as the rule itself is. The first properties of this kind are those of names: a reference carries a name, and a word is a name unless it is empty.
-/

namespace TwinShell.Language

variable {α β : Type} {P : α → Prop} {Q : β → Prop}

/-- Whatever the parser reads has a property. -/
def Yields (P : α → Prop) (p : Parser α) : Prop := ∀ ctx c a c', p ctx c = .ok a c' → P a

namespace Yields

theorem pure {a : α} (h : P a) : Yields P (Pure.pure a) := by
  intro ctx c b c' hb
  cases hb
  exact h

theorem bind {p : Parser α} {f : α → Parser β} (hp : Yields P p) (hf : ∀ a, P a → Yields Q (f a)) :
    Yields Q (p >>= f) := by
  intro ctx c b c' h
  rw [Parser.bind_apply] at h
  split at h
  · rename_i a c'' hfirst
    exact hf a (hp ctx c a c'' hfirst) ctx c'' b c' h
  · cases h
  · cases h

/-- What is read first does not matter. -/
theorem next {p : Parser α} {f : α → Parser β} (hf : ∀ a, Yields Q (f a)) : Yields Q (p >>= f) :=
  bind (P := fun _ => True) (fun _ _ _ _ _ => trivial) fun a _ => hf a

theorem exhausted : Yields P Parser.exhausted := nofun

theorem fail (problem : Problem) : Yields P (Parser.fail problem) := nofun

theorem failAt (position : Nat) (problem : Problem) : Yields P (Parser.failAt position problem) := nofun

theorem traced {name : String} {p : Parser α} (hp : Yields P p) : Yields P (Parser.traced name p) := by
  intro ctx c a c' h
  unfold Parser.traced at h
  split at h
  · exact hp _ c a c' h
  · exact hp _ c a c' h

theorem attempt {p : Parser α} (hp : Yields P p) :
    Yields (fun result => ∀ a ∈ result, P a) (Parser.attempt p) := by
  intro ctx c result c' h
  unfold Parser.attempt at h
  split at h
  · rename_i a c'' hfirst
    cases h
    rintro _ ⟨⟩
    exact hp ctx c a _ hfirst
  · cases h
    exact nofun
  · cases h

theorem ite {p : Prop} [Decidable p] {x y : Parser α} (hx : Yields P x) (hy : Yields P y) :
    Yields P (if p then x else y) := by
  split
  · exact hx
  · exact hy

/-- A rule that goes on in two ways, where what is tested matters. -/
theorem dite {p : Prop} [Decidable p] {x y : Parser α} (hx : p → Yields P x) (hy : ¬p → Yields P y) :
    Yields P (if p then x else y) := by
  split
  · exact hx ‹p›
  · exact hy ‹¬p›

theorem reading {f : Cursor → α × Cursor} (h : ∀ c, P (f c).1) : Yields P (Parser.reading f) := by
  intro ctx c a c' ha
  cases ha
  exact h c

theorem imp {P' : α → Prop} {p : Parser α} (hp : Yields P p) (h : ∀ a, P a → P' a) : Yields P' p :=
  fun ctx c a c' ha => h a (hp ctx c a c' ha)

end Yields

/-! ### Names -/

/-- A token that is no reference, or one that carries a name. -/
def Token.Named (token : Token) : Prop := ∀ name, token.kind = .reference name → IsName name

namespace Cursor

variable {start : Cursor}

theorem Found.named {found : Token × Cursor} (h : start.Found found) : found.1.Named := by
  cases h with
  | nothing => nofun
  | upTo _ _ hfits => exact hfits.name

theorem named_expressionToken : start.expressionToken.1.Named := start.found_expressionToken.named

theorem named_token (mode : TextMode) : (mode.token start).1.Named := (found_textToken mode.stops start).named

end Cursor

/-- A word of letters, digits and underscores is a name unless it is empty. -/
theorem yields_simpleWord : Yields (fun word => word ≠ "" → IsName word) Parser.simpleWord := by
  rintro ctx c word c' ⟨⟩
  intro hne
  refine Cursor.isName_textSince fun hnone => hne ?_
  rw [Cursor.textSince, Cursor.charsSince, hnone, Nat.sub_self, List.take_zero]

theorem yields_variableName : Yields IsName Parser.variableName := by
  refine yields_simpleWord.traced.bind fun name hname => .dite (fun _ => .fail _) fun hne => ?_
  exact .pure (hname hne)

end TwinShell.Language
