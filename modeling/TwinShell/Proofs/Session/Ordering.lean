import Mathlib.Data.String.Basic
import TwinShell.Proofs.Dict
import TwinShell.Proofs.Sorting
import TwinShell.Proofs.Value.Order
import TwinShell.Session.Navigation

/-!
# The order of a sorted listing

Two attributes are compared by value if both are numbers, and by code points otherwise. Each of the two orders is one, but they are chosen pair by pair, and a text that is no number may stand between two numbers that are the other way round by value. A NaN, which counts as equal to every number, does the same between two different numbers. These are the only ways in which the comparison goes in circles, and where it does not, a listing is sorted.
-/

namespace TwinShell.Session

variable {a b c t : String} {x y z : Float}

theorem compareTexts_eq_compare (a b : String) : compareTexts a b = compare a b := by
  unfold compareTexts
  rcases lt_trichotomy a b with h | rfl | h
  · rw [if_pos h, compare_lt_iff_lt.2 h]
  · rw [if_neg (lt_irrefl a), if_pos rfl, compare_eq_iff_eq.2 rfl]
  · rw [if_neg h.not_gt, if_neg h.ne', compare_gt_iff_gt.2 h]

theorem compareAttributes_word_left (ha : Decimal.readFloat? a = none) :
    compareAttributes (some a) (some b) = compare a b := by
  rw [← compareTexts_eq_compare]
  simp only [compareAttributes, ha]

theorem compareAttributes_word_right (hb : Decimal.readFloat? b = none) :
    compareAttributes (some a) (some b) = compare a b := by
  rw [← compareTexts_eq_compare]
  cases ha : Decimal.readFloat? a <;> simp only [compareAttributes, ha, hb]

theorem compareAttributes_numbers (ha : Decimal.readFloat? a = some x) (hb : Decimal.readFloat? b = some y) :
    compareAttributes (some a) (some b) = (Number.compare? (.float x) (.float y)).getD .eq := by
  simp only [compareAttributes, ha, hb]

theorem compareAttributes_nan (ha : Decimal.readFloat? a = some x) (hb : Decimal.readFloat? b = some y)
    (hnan : x.isNaN ∨ y.isNaN) : compareAttributes (some a) (some b) = .eq := by
  rw [compareAttributes_numbers ha hb, Number.compare?_float]
  rcases hnan with h | h
  · rw [floatPlace?_eq_none.2 h]
    rfl
  · rw [floatPlace?_eq_none.2 h]
    cases floatPlace? x <;> rfl

theorem compareAttributes_lt_iff (ha : Decimal.readFloat? a = some x) (hb : Decimal.readFloat? b = some y) :
    compareAttributes (some a) (some b) = .lt ↔ Number.compare? (.float x) (.float y) = some .lt := by
  rw [compareAttributes_numbers ha hb]
  rcases Number.compare? (.float x) (.float y) with _ | (_ | _ | _) <;> simp

theorem place_of_not_nan (h : ¬x.isNaN) : ∃ p, floatPlace? x = some p :=
  Option.ne_none_iff_exists'.1 fun hnone => h (floatPlace?_eq_none.1 hnone)

theorem compareAttributes_places {p q : FloatPlace} (ha : Decimal.readFloat? a = some x)
    (hb : Decimal.readFloat? b = some y) (hp : floatPlace? x = some p) (hq : floatPlace? y = some q) :
    compareAttributes (some a) (some b) = compare p q := by
  rw [compareAttributes_numbers ha hb, Number.compare?_float, hp, hq]
  rfl

/-- A text that is a number is not the same as one that is not. -/
theorem ne_of_readFloat? (ha : Decimal.readFloat? a = some x) (hb : Decimal.readFloat? b = none) : a ≠ b := by
  rintro rfl
  rw [ha] at hb
  cases hb

/-! ### Turning around -/

/-- The order of two attributes is the reverse of their order the other way round. -/
theorem compareAttributes_swap (a b : Option String) :
    compareAttributes a b = (compareAttributes b a).swap := by
  cases a with
  | none => cases b <;> rfl
  | some a =>
    cases b with
    | none => rfl
    | some b =>
      cases ha : Decimal.readFloat? a with
      | none =>
        rw [compareAttributes_word_left ha, compareAttributes_word_right ha]
        exact Std.OrientedOrd.eq_swap
      | some x =>
        cases hb : Decimal.readFloat? b with
        | none =>
          rw [compareAttributes_word_right hb, compareAttributes_word_left hb]
          exact Std.OrientedOrd.eq_swap
        | some y =>
          rw [compareAttributes_numbers ha hb, compareAttributes_numbers hb ha, Number.compare?_swap]
          rcases Number.compare? (.float y) (.float x) with _ | (_ | _ | _) <;> rfl

theorem compareAttributes_gt_iff {a b : Option String} :
    compareAttributes a b = .gt ↔ compareAttributes b a = .lt := by
  rw [compareAttributes_swap]
  cases compareAttributes b a <;> decide

/-! ### Going on -/

/-- Among some texts, no number has another value than a NaN that counts as equal to it, and wherever a text that is no number stands between two numbers, these are in the same order by value. -/
structure Consistent (S : Set String) : Prop where
  level {t a b : String} {z x y : Float} (ht : t ∈ S) (ha : a ∈ S) (hb : b ∈ S)
    (hz : Decimal.readFloat? t = some z) (hx : Decimal.readFloat? a = some x)
    (hy : Decimal.readFloat? b = some y) (hnan : z.isNaN) :
    Number.compare? (.float x) (.float y) ≠ some .lt
  parted {t a b : String} {x y : Float} (ht : t ∈ S) (ha : a ∈ S) (hb : b ∈ S)
    (hword : Decimal.readFloat? t = none) (hx : Decimal.readFloat? a = some x)
    (hy : Decimal.readFloat? b = some y) (hat : a < t) (htb : t < b) :
    Number.compare? (.float x) (.float y) = some .lt

/-- Neither of two attributes that follow each other in the order, among some texts or missing, is after a third one. -/
def Transitive (S : Set String) : Prop :=
  ∀ a b c : Option String, (∀ t ∈ a, t ∈ S) → (∀ t ∈ b, t ∈ S) → (∀ t ∈ c, t ∈ S) →
    compareAttributes a b ≠ .gt → compareAttributes b c ≠ .gt → compareAttributes a c ≠ .gt

theorem Transitive.texts {S : Set String} (h : Transitive S) (ha : a ∈ S) (hb : b ∈ S) (hc : c ∈ S)
    (hab : compareAttributes (some a) (some b) ≠ .gt) (hbc : compareAttributes (some b) (some c) ≠ .gt) :
    compareAttributes (some a) (some c) ≠ .gt := by
  refine h _ _ _ ?_ ?_ ?_ hab hbc <;> rintro _ ⟨⟩ <;> assumption

theorem Transitive.consistent {S : Set String} (h : Transitive S) : Consistent S where
  level ht ha hb hz hx hy hnan hlt := by
    have hfirst := compareAttributes_nan hy hz (.inr hnan)
    have hsecond := compareAttributes_nan hz hx (.inl hnan)
    refine h.texts hb ht ha (by rw [hfirst]; decide) (by rw [hsecond]; decide) ?_
    exact compareAttributes_gt_iff.2 ((compareAttributes_lt_iff hx hy).2 hlt)
  parted ht ha hb hword hx hy hat htb := by
    rw [← compareAttributes_lt_iff hx hy, ← compareAttributes_gt_iff]
    by_contra hba
    refine h.texts hb ha ht hba ?_ ?_
    · rw [compareAttributes_word_right hword, compare_lt_iff_lt.2 hat]
      decide
    · rw [compareAttributes_word_right hword, compare_gt_iff_gt.2 htb]

theorem Consistent.numbers {S : Set String} (h : Consistent S) (ha : a ∈ S) (hb : b ∈ S) (hc : c ∈ S)
    (hx : Decimal.readFloat? a = some x) (hy : Decimal.readFloat? b = some y)
    (hz : Decimal.readFloat? c = some z) (hab : compareAttributes (some a) (some b) ≠ .gt)
    (hbc : compareAttributes (some b) (some c) ≠ .gt) : compareAttributes (some a) (some c) ≠ .gt := by
  by_cases hends : x.isNaN ∨ z.isNaN
  · rw [compareAttributes_nan hx hz hends]
    decide
  by_cases hmiddle : y.isNaN
  · rw [Ne, compareAttributes_gt_iff, compareAttributes_lt_iff hz hx]
    exact h.level hb hc ha hy hz hx hmiddle
  obtain ⟨p, hp⟩ := place_of_not_nan fun hnan => hends (.inl hnan)
  obtain ⟨q, hq⟩ := place_of_not_nan hmiddle
  obtain ⟨r, hr⟩ := place_of_not_nan fun hnan => hends (.inr hnan)
  rw [compareAttributes_places hx hy hp hq, compare_le_iff_le] at hab
  rw [compareAttributes_places hy hz hq hr, compare_le_iff_le] at hbc
  rw [compareAttributes_places hx hz hp hr, compare_le_iff_le]
  exact hab.trans hbc

/-- A text between two numbers that is none itself keeps them apart. -/
theorem Consistent.between {S : Set String} (h : Consistent S) (ha : a ∈ S) (ht : t ∈ S) (hb : b ∈ S)
    (hx : Decimal.readFloat? a = some x) (hword : Decimal.readFloat? t = none)
    (hy : Decimal.readFloat? b = some y) (hat : a ≤ t) (htb : t ≤ b) :
    compareAttributes (some a) (some b) = .lt := by
  have hlow : a < t := hat.lt_of_ne (ne_of_readFloat? hx hword)
  have hhigh : t < b := htb.lt_of_ne (ne_of_readFloat? hy hword).symm
  exact (compareAttributes_lt_iff hx hy).2 (h.parted ht ha hb hword hx hy hlow hhigh)

/-- The cases are which of the three are numbers. A word among two numbers decides by where it stands between them in the order of texts, and two words leave only that order. -/
theorem Consistent.texts {S : Set String} (h : Consistent S) (ha : a ∈ S) (hb : b ∈ S) (hc : c ∈ S)
    (hab : compareAttributes (some a) (some b) ≠ .gt) (hbc : compareAttributes (some b) (some c) ≠ .gt) :
    compareAttributes (some a) (some c) ≠ .gt := by
  cases hx : Decimal.readFloat? a with
  | some x =>
    cases hy : Decimal.readFloat? b with
    | some y =>
      cases hz : Decimal.readFloat? c with
      | some z => exact h.numbers ha hb hc hx hy hz hab hbc
      | none =>
        rw [compareAttributes_word_right hz, compare_le_iff_le] at hbc ⊢
        by_contra hca
        exact hab (compareAttributes_gt_iff.2 (h.between hb hc ha hy hz hx hbc (le_of_not_ge hca)))
    | none =>
      rw [compareAttributes_word_right hy, compare_le_iff_le] at hab
      rw [compareAttributes_word_left hy, compare_le_iff_le] at hbc
      cases hz : Decimal.readFloat? c with
      | some z =>
        rw [h.between ha hb hc hx hy hz hab hbc]
        decide
      | none =>
        rw [compareAttributes_word_right hz, compare_le_iff_le]
        exact hab.trans hbc
  | none =>
    rw [compareAttributes_word_left hx, compare_le_iff_le] at hab ⊢
    cases hy : Decimal.readFloat? b with
    | none =>
      rw [compareAttributes_word_left hy, compare_le_iff_le] at hbc
      exact hab.trans hbc
    | some y =>
      cases hz : Decimal.readFloat? c with
      | none =>
        rw [compareAttributes_word_right hz, compare_le_iff_le] at hbc
        exact hab.trans hbc
      | some z =>
        by_contra hac
        exact hbc (compareAttributes_gt_iff.2 (h.between hc ha hb hz hx hy (le_of_not_ge hac) hab))

theorem Consistent.transitive {S : Set String} (h : Consistent S) : Transitive S := by
  intro a b c ha hb hc hab hbc
  cases c with
  | none => cases a <;> nofun
  | some c =>
    cases b with
    | none => exact absurd rfl hbc
    | some b =>
      cases a with
      | none => exact absurd rfl hab
      | some a => exact h.texts (ha a rfl) (hb b rfl) (hc c rfl) hab hbc

/-! ### Sorting entries -/

/-- Whether an entry of a listing is before another one by an attribute. -/
def sortsBefore (key : String) (a b : String × Object) : Bool :=
  compareAttributes (attributeText? a.2 key) (attributeText? b.2 key) = .lt

/-- The entries whose attribute is missing or among some texts. -/
def entriesIn (key : String) (S : Set String) : Set (String × Object) :=
  {entry | ∀ t ∈ attributeText? entry.2 key, t ∈ S}

theorem sortsBefore_eq_false {key : String} {a b : String × Object} :
    sortsBefore key a b = false ↔
      compareAttributes (attributeText? b.2 key) (attributeText? a.2 key) ≠ .gt := by
  rw [Ne, compareAttributes_gt_iff]
  exact decide_eq_false_iff_not

theorem Transitive.isOrder {S : Set String} (h : Transitive S) (key : String) :
    Sorting.IsOrder (sortsBefore key) (entriesIn key S) where
  asymm _ _ hab := by
    rw [sortsBefore_eq_false, of_decide_eq_true hab]
    decide
  trans ha hb hc hab hbc := by
    rw [sortsBefore_eq_false] at hab hbc ⊢
    exact h _ _ _ hc hb ha hbc hab

section Listing

variable {β ν : Type}

/-- Every listing of entries whose attribute is missing or among some texts can be sorted by that attribute: the entries stay the same, and none is after one that follows it. -/
def SortsListings (S : Set String) (s : Session β ν) : Prop :=
  ∀ (key : String) (entries : List (String × Object)), (∀ entry ∈ entries, entry ∈ entriesIn key S) →
    ∃ sorted, Command.sortedBy key entries s = .ok sorted s ∧ sorted.Perm entries ∧
      sorted.Pairwise fun a b => compareAttributes (attributeText? a.2 key) (attributeText? b.2 key) ≠ .gt

theorem sortedBy_eq_ok {key : String} {entries sorted : List (String × Object)}
    (h : Sorting.sort? (sortsBefore key) entries = some sorted) (s : Session β ν) :
    Command.sortedBy key entries s = .ok sorted s := by
  have hsort : Command.sortedBy key entries = (pure sorted : Command β ν (List (String × Object))) := by
    unfold Command.sortedBy
    extract_lets less
    rw [show less = sortsBefore key from rfl, h]
  rw [hsort]
  rfl

theorem Transitive.sortsListings {S : Set String} (h : Transitive S) (s : Session β ν) : SortsListings S s := by
  intro key entries hentries
  obtain ⟨sorted, hsort, hsorts⟩ := Sorting.exists_sort? (h.isOrder key) hentries
  refine ⟨sorted, sortedBy_eq_ok hsort s, hsorts.perm (h.isOrder key) hentries, ?_⟩
  exact hsorts.upward.imp sortsBefore_eq_false.1

/-- An entry whose attribute is a text or missing. -/
def entryWith (key : String) (text : Option String) : String × Object :=
  ("", text.elim .empty fun text => Dict.empty.insert key (.str text))

theorem attributeText?_entryWith (key : String) (text : Option String) :
    attributeText? (entryWith key text).2 key = text := by
  cases text with
  | none => rfl
  | some text =>
    have hfound : (Dict.empty.insert key (.str text) : Object).get? key = some (.str text) := by
      rw [Dict.get?_insert, if_pos rfl]
    simp only [attributeText?, entryWith, Option.elim_some, hfound, Option.map_some]

/-- Three entries of which none is less than the one directly before it are left as they are. -/
theorem SortsListings.transitive {S : Set String} {s : Session β ν} (h : SortsListings S s) : Transitive S := by
  intro a b c ha hb hc hab hbc
  let entries := [entryWith "" a, entryWith "" b, entryWith "" c]
  have hin {text : Option String} (htext : ∀ t ∈ text, t ∈ S) : entryWith "" text ∈ entriesIn "" S := by
    intro t ht
    rw [attributeText?_entryWith] at ht
    exact htext t ht
  obtain ⟨sorted, hsorted, -, hpairwise⟩ := h "" entries
    (List.forall_mem_cons.2 ⟨hin ha, List.forall_mem_cons.2 ⟨hin hb, List.forall_mem_singleton.2 (hin hc)⟩⟩)
  have hba : sortsBefore "" (entryWith "" b) (entryWith "" a) = false := by
    rwa [sortsBefore_eq_false, attributeText?_entryWith, attributeText?_entryWith]
  have hcb : sortsBefore "" (entryWith "" c) (entryWith "" b) = false := by
    rwa [sortsBefore_eq_false, attributeText?_entryWith, attributeText?_entryWith]
  have hsame : Sorting.sort? (sortsBefore "") entries = some entries := by
    simp [entries, Sorting.sort?, Sorting.insertionLength, Sorting.insertionSort, Sorting.insertAll,
      Sorting.insertDown, hba, hcb]
  rw [sortedBy_eq_ok hsame s] at hsorted
  cases hsorted
  have hca := List.rel_of_pairwise_cons hpairwise (List.mem_cons_of_mem _ (List.mem_singleton_self (entryWith "" c)))
  rwa [attributeText?_entryWith, attributeText?_entryWith] at hca

end Listing

/-- Attributes compare the other way round if they are swapped. Among some texts the comparison is an order exactly if these are consistent, and exactly then every listing of entries with such attributes is sorted by them. -/
theorem compareAttributes_order {β ν : Type} (S : Set String) (s : Session β ν) :
    (∀ a b, compareAttributes a b = (compareAttributes b a).swap) ∧ (Transitive S ↔ Consistent S) ∧
      (SortsListings S s ↔ Consistent S) :=
  ⟨compareAttributes_swap, ⟨Transitive.consistent, Consistent.transitive⟩,
    fun h => h.transitive.consistent, fun h => h.transitive.sortsListings s⟩

/-- Among all texts it is none: `10` is before `1a` and `1a` before `9` by code points, but `10` is after `9` by value. -/
theorem compareAttributes_not_transitive :
    ¬∀ a b c, compareAttributes a b ≠ .gt → compareAttributes b c ≠ .gt → compareAttributes a c ≠ .gt := by
  intro h
  exact h (some "10") (some "1a") (some "9") (by decide) (by decide) (by decide)

end TwinShell.Session
