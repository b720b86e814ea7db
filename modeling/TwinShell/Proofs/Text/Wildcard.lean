import Mathlib.Data.List.Infix
import TwinShell.Proofs.Path
import TwinShell.Text.Wildcard

/-!
# What wildcards mean

A pattern with stars stands for the texts that come out when every star is filled in with characters other than line feeds, all other characters standing for themselves. Read from the left, that is a search: a star may take any number of characters, and the rest of the pattern has to match what is left. The rows of the matching algorithm are the answers of this search for all suffixes of the text at once.
-/

namespace TwinShell.Text

/-! ### The search -/

/-- Whether a plain character in front of a pattern leads to a match, `rest` being the matches of the pattern. -/
def afterPlain (p : Char) (rest : List Char → Bool) : List Char → Bool
  | [] => false
  | c :: cs => c == p && rest cs

/-- Whether a star in front of a pattern leads to a match, `rest` being the matches of the pattern. -/
def afterStar (rest : List Char → Bool) : List Char → Bool
  | [] => rest []
  | c :: cs => rest (c :: cs) || (c != '\n' && afterStar rest cs)

/-- Whether a text matches a pattern, by trying every way to fill in its stars. -/
def matchesChars : List Char → List Char → Bool
  | [], text => text.isEmpty
  | p :: pattern, text =>
    if p = '*' then afterStar (matchesChars pattern) text else afterPlain p (matchesChars pattern) text

/-! ### Rows -/

variable {rest : List Char → Bool} {text : List Char}

theorem headD_map_tails (rest : List Char → Bool) (text : List Char) :
    (text.tails.map rest).headD false = rest text := by
  cases text <;> rfl

theorem plainRow_map_tails (p : Char) (rest : List Char → Bool) (text : List Char) :
    plainRow p text (text.tails.map rest) = text.tails.map (afterPlain p rest) := by
  induction text with
  | nil => rfl
  | cons c cs ih =>
    rw [List.tails_cons, List.map_cons, plainRow, headD_map_tails, ih]
    rfl

theorem starRow_map_tails (rest : List Char → Bool) (text : List Char) :
    starRow text (text.tails.map rest) = text.tails.map (afterStar rest) := by
  induction text with
  | nil => rfl
  | cons c cs ih =>
    rw [List.tails_cons, List.map_cons, starRow, ih, headD_map_tails]
    rfl

/-- The row of a pattern holds the answers for all suffixes of the text. -/
theorem wildcardRow_eq (pattern text : List Char) :
    wildcardRow pattern text = text.tails.map (matchesChars pattern) := by
  induction pattern with
  | nil =>
    induction text with
    | nil => rfl
    | cons c cs ih =>
      rw [List.tails_cons, List.map_cons, ← ih]
      rfl
  | cons p pattern ih =>
    have hrow : wildcardRow (p :: pattern) text =
        if p = '*' then starRow text (wildcardRow pattern text) else plainRow p text (wildcardRow pattern text) := rfl
    rw [hrow, ih, plainRow_map_tails, starRow_map_tails]
    by_cases hp : p = '*'
    · simp only [if_pos hp, matchesChars]
    · simp only [if_neg hp, matchesChars]

/-! ### Filling in the stars -/

/-- The text comes out when each gap between the pieces of a pattern is filled with a text without line feeds. -/
def Fills (pieces : List (List Char)) (text : List Char) : Prop :=
  ∃ first rest gaps, pieces = first :: rest ∧ gaps.length = rest.length ∧ (∀ gap ∈ gaps, '\n' ∉ gap) ∧
    text = first ++ (List.zipWith (· ++ ·) gaps rest).flatten

theorem fills_singleton {piece : List Char} : Fills [piece] text ↔ text = piece := by
  constructor
  · rintro ⟨first, rest, gaps, hpieces, -, -, rfl⟩
    cases hpieces
    rw [List.zipWith_nil_right, List.flatten_nil, List.append_nil]
  · rintro rfl
    exact ⟨text, [], [], rfl, rfl, nofun, (List.append_nil text).symm⟩

theorem fills_plain {p : Char} {piece : List Char} {pieces : List (List Char)} :
    Fills ((p :: piece) :: pieces) text ↔ ∃ cs, text = p :: cs ∧ Fills (piece :: pieces) cs := by
  constructor
  · rintro ⟨first, rest, gaps, hpieces, hlength, hgaps, rfl⟩
    cases hpieces
    exact ⟨_, rfl, piece, pieces, gaps, rfl, hlength, hgaps, rfl⟩
  · rintro ⟨cs, rfl, first, rest, gaps, hpieces, hlength, hgaps, rfl⟩
    cases hpieces
    exact ⟨p :: piece, pieces, gaps, rfl, hlength, hgaps, rfl⟩

theorem fills_star {piece : List Char} {pieces : List (List Char)} :
    Fills ([] :: piece :: pieces) text ↔
      ∃ gap cs, text = gap ++ cs ∧ '\n' ∉ gap ∧ Fills (piece :: pieces) cs := by
  constructor
  · rintro ⟨first, rest, gaps, hpieces, hlength, hgaps, rfl⟩
    cases hpieces
    obtain ⟨gap, gaps, rfl⟩ := List.exists_cons_of_length_eq_add_one hlength
    obtain ⟨hgap, hgaps⟩ := List.forall_mem_cons.1 hgaps
    refine ⟨gap, _, ?_, hgap, piece, pieces, gaps, rfl, Nat.succ.inj hlength, hgaps, rfl⟩
    rw [List.nil_append, List.zipWith_cons_cons, List.flatten_cons, List.append_assoc]
  · rintro ⟨gap, cs, rfl, hgap, first, rest, gaps, hpieces, hlength, hgaps, rfl⟩
    cases hpieces
    refine ⟨[], piece :: pieces, gap :: gaps, rfl, congrArg Nat.succ hlength,
      List.forall_mem_cons.2 ⟨hgap, hgaps⟩, ?_⟩
    rw [List.nil_append, List.zipWith_cons_cons, List.flatten_cons, List.append_assoc]

theorem afterStar_iff : afterStar rest text ↔ ∃ gap cs, text = gap ++ cs ∧ '\n' ∉ gap ∧ rest cs := by
  induction text with
  | nil =>
    constructor
    · exact fun h => ⟨[], [], rfl, List.not_mem_nil, h⟩
    · rintro ⟨gap, cs, hcut, -, hrest⟩
      obtain ⟨rfl, rfl⟩ := List.append_eq_nil_iff.1 hcut.symm
      exact hrest
  | cons c cs ih =>
    rw [afterStar, Bool.or_eq_true, Bool.and_eq_true, bne_iff_ne, ih]
    constructor
    · rintro (hrest | ⟨hc, gap, suffix, rfl, hgap, hrest⟩)
      · exact ⟨[], c :: cs, rfl, List.not_mem_nil, hrest⟩
      · exact ⟨c :: gap, suffix, rfl, List.not_mem_cons_of_ne_of_not_mem hc.symm hgap, hrest⟩
    · rintro ⟨gap, suffix, hcut, hgap, hrest⟩
      cases gap with
      | nil => exact .inl (hcut ▸ hrest)
      | cons d gap =>
        obtain ⟨rfl, rfl⟩ := List.cons.inj hcut
        refine .inr ⟨(List.ne_of_not_mem_cons hgap).symm, gap, suffix, rfl, ?_, hrest⟩
        exact List.not_mem_of_not_mem_cons hgap

theorem pieces_ne_nil (sep : Char) (cs : List Char) : pieces sep cs ≠ [] := by
  rw [pieces_eq_splitOn]
  exact List.splitOn_ne_nil sep cs

/-- The search finds exactly the texts that come out when the stars are filled in. -/
theorem matchesChars_iff (pattern : List Char) : matchesChars pattern text ↔ Fills (pieces '*' pattern) text := by
  induction pattern generalizing text with
  | nil => rw [pieces, fills_singleton, matchesChars, List.isEmpty_iff]
  | cons p pattern ih =>
    obtain ⟨piece, more, hpieces⟩ := List.exists_cons_of_ne_nil (pieces_ne_nil '*' pattern)
    rw [hpieces] at ih
    by_cases hp : p = '*'
    · rw [matchesChars, pieces, if_pos hp, if_pos hp, hpieces, fills_star, afterStar_iff]
      simp only [ih]
    · rw [matchesChars, pieces, if_neg hp, if_neg hp, hpieces, fills_plain]
      cases text with
      | nil => exact iff_of_false Bool.false_ne_true (by simp)
      | cons c cs =>
        rw [afterPlain, Bool.and_eq_true, beq_iff_eq, ih]
        simp [and_comm, eq_comm]

/-- Whatever compiles the patterns, one that it does not refuse matches exactly the texts that come out when its stars are filled in, whatever other characters it has; without stars that is the pattern itself. -/
theorem wildcardMatch_iff [PatternCompiler] (pattern text : String)
    (hcompiles : '*' ∈ pattern.toList → PatternCompiler.compiles pattern) :
    (wildcardMatch pattern text ↔ Fills (pieces '*' pattern.toList) text.toList) ∧
      ('*' ∉ pattern.toList → (wildcardMatch pattern text ↔ text = pattern)) := by
  have hplain : '*' ∉ pattern.toList → (wildcardMatch pattern text ↔ text = pattern) := by
    intro hstar
    rw [wildcardMatch, if_neg (mt List.contains_iff_mem.1 hstar), beq_iff_eq, eq_comm]
  refine ⟨?_, hplain⟩
  by_cases hstar : '*' ∈ pattern.toList
  · rw [wildcardMatch, if_pos (List.contains_iff_mem.2 hstar), hcompiles hstar, Bool.true_and, wildcardRow_eq,
      headD_map_tails, matchesChars_iff]
  · rw [hplain hstar, pieces_eq_splitOn, List.splitOn_eq_singleton hstar, fills_singleton, String.toList_inj]

/-- Brackets, dots and plus signs stand for themselves, and the stars may be next to each other. -/
theorem wildcardMatch_iff_brackets : ('*' ∈ "R[*].**+".toList → PatternCompiler.compiles "R[*].**+") ∧
    Fills [['R', '['], [']', '.'], [], ['+']] "R[1].a+b+".toList ∧ wildcardMatch "R[*].**+" "R[1].a+b+" := by
  have hcompiles : '*' ∈ "R[*].**+".toList → PatternCompiler.compiles "R[*].**+" := by decide
  have hfills : Fills [['R', '['], [']', '.'], [], ['+']] "R[1].a+b+".toList :=
    ⟨['R', '['], [[']', '.'], [], ['+']], [['1'], ['a', '+'], ['b']], rfl, rfl, by decide, rfl⟩
  exact ⟨hcompiles, hfills, (wildcardMatch_iff _ _ hcompiles).1.2 hfills⟩

end TwinShell.Text
