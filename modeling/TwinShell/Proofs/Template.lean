import TwinShell.Template

/-!
# Directives of a template

A template is text with directives, and a directive is a percent sign, a precision if a point follows, and a verb. `Writes` says which directives get to write a number when a template is filled from the left: those with the verb `f` that are reached, each with the argument that is its turn. The digits of a precision ask for as many places as they spell, but no number is written with more than `maxPlaces`, and the digits are only held against the bounds of a word.
-/

namespace TwinShell.Template

variable {template : String} {args : List Value}

/-! ### Reading a directive -/

/-- What follows a percent sign: the digits of a precision, if a point starts one, and a verb that is not part of it. -/
structure Directive where
  precision : Option (List Char)
  verb : Char
  isDigit_of_mem : ∀ digits ∈ precision, ∀ c ∈ digits, Text.isDigit c
  ne_point : precision = none → verb ≠ '.'
  not_digit : precision ≠ none → ¬Text.isDigit verb

namespace Directive

/-- The characters of a directive, without its percent sign. -/
def chars (d : Directive) : List Char :=
  match d.precision with
  | none => [d.verb]
  | some digits => '.' :: (digits ++ [d.verb])

/-- The places that a directive names. -/
def places? (d : Directive) : Option Nat := d.precision.map precisionOf

/-- The places that a number is written with. -/
def places (d : Directive) : Nat := d.places?.getD defaultPlaces

/-- Too many places are asked for by digits that spell a word. -/
theorem places_eq_iff (d : Directive) (n : Nat) : d.places = n ∧ maxPlaces < n ↔
    ∃ digits, d.precision = some digits ∧ Decimal.natOfDigits digits = n ∧ maxPlaces < n ∧
      n < 0x10000000000000000 := by
  cases hprecision : d.precision with
  | none =>
    simp only [places, places?, hprecision, Option.map_none, Option.getD_none, reduceCtorEq, false_and,
      exists_false, iff_false, not_and]
    rintro rfl
    decide
  | some digits =>
    simp only [places, places?, hprecision, Option.map_some, Option.getD_some, precisionOf, Option.some.injEq]
    constructor
    · rintro ⟨hn, hmax⟩
      split at hn
      · exact ⟨digits, rfl, hn, hmax, hn ▸ ‹_›⟩
      · exact absurd (hn ▸ hmax) (by decide)
    · rintro ⟨_, rfl, rfl, hmax, hword⟩
      exact ⟨if_pos hword, hmax⟩

end Directive

theorem takePrecision_chars (d : Directive) (rest : List Char) :
    takePrecision (d.chars ++ rest) = (d.places?, d.verb :: rest) := by
  obtain ⟨precision, verb, hdigits, hpoint, hverb⟩ := d
  cases precision with
  | none =>
    rw [Directive.chars, List.singleton_append, takePrecision]
    · rfl
    · rintro cs ⟨⟩
      exact hpoint rfl rfl
  | some digits =>
    have hall := hdigits digits rfl
    have hstop : ¬Text.isDigit verb := hverb nofun
    simp only [Directive.chars, Directive.places?, List.cons_append, List.append_assoc, List.nil_append,
      takePrecision, List.takeWhile_append_of_pos hall, List.dropWhile_append_of_pos hall,
      List.takeWhile_cons_of_neg hstop, List.dropWhile_cons_of_neg hstop, List.append_nil, Option.map_some]

theorem exists_directive {cs rest : List Char} {verb : Char} {places? : Option Nat}
    (h : takePrecision cs = (places?, verb :: rest)) :
    ∃ d : Directive, cs = d.chars ++ rest ∧ d.places? = places? ∧ d.verb = verb := by
  unfold takePrecision at h
  split at h
  · rename_i cs
    obtain ⟨rfl, hverb⟩ := Prod.mk.inj h
    have hstop : ¬Text.isDigit verb := by
      have hhead := List.head?_dropWhile_not Text.isDigit cs
      simpa [hverb] using hhead
    refine ⟨⟨some (cs.takeWhile Text.isDigit), verb, ?_, nofun, fun _ => hstop⟩, ?_, rfl, rfl⟩
    · rintro _ ⟨⟩
      exact List.all_eq_true.1 List.all_takeWhile
    · rw [Directive.chars, List.cons_append, List.append_assoc, List.singleton_append, ← hverb,
        List.takeWhile_append_dropWhile]
  · rename_i hpoint
    obtain ⟨rfl, rfl⟩ := Prod.mk.inj h
    exact ⟨⟨none, verb, nofun, fun _ h => hpoint rest (by rw [h]), fun h => absurd rfl h⟩, rfl, rfl, rfl⟩

/-! ### Filling -/

theorem fillFrom_char {c : Char} (hc : c ≠ '%') (cs : List Char) :
    fillFrom template args (c :: cs) = (fillFrom template args cs).map (c :: ·) := by
  rw [fillFrom, if_pos hc]

/-- A percent sign for `%%`, and otherwise the text of the next argument. -/
theorem fillFrom_directive (d : Directive) (cs : List Char) :
    fillFrom template args ('%' :: (d.chars ++ cs)) =
      if d.verb = '%' then (fillFrom template args cs).map ('%' :: ·)
      else
        match args with
        | [] => .error (.missingArgument template)
        | arg :: args => do
          let text ← fill d.verb d.places? arg
          let tail ← fillFrom template args cs
          return text.toList ++ tail := by
  rw [fillFrom, if_neg (not_not_intro rfl)]
  split
  · rename_i h
    rw [takePrecision_chars] at h
    cases h
  · rename_i h
    rw [takePrecision_chars] at h
    cases h
    rfl

theorem fillFrom_percent (cs : List Char) :
    fillFrom template args ('%' :: '%' :: cs) = (fillFrom template args cs).map ('%' :: ·) :=
  fillFrom_directive ⟨none, '%', nofun, by decide, by decide⟩ cs

theorem fillFrom_value (arg : Value) (cs : List Char) :
    fillFrom template (arg :: args) ('%' :: 'v' :: cs) =
      (fillFrom template args cs).map (arg.text.toList ++ ·) := by
  have hbind : fillFrom template (arg :: args) ('%' :: 'v' :: cs) =
      fillFrom template args cs >>= fun tail => pure (arg.text.toList ++ tail) :=
    fillFrom_directive ⟨none, 'v', nofun, by decide, by decide⟩ cs
  rw [hbind]
  cases fillFrom template args cs <;> rfl

theorem map_append (s t : List Char) (filled : Except Error (List Char)) :
    (filled.map (t ++ ·)).map (s ++ ·) = filled.map (s ++ t ++ ·) := by
  cases filled <;> simp [Except.map]

/-- Characters whose percent signs are doubled stand for themselves. -/
theorem fillFrom_escaped (chars rest : List Char) :
    fillFrom template args (chars.flatMap (fun c => if c = '%' then ['%', '%'] else [c]) ++ rest) =
      (fillFrom template args rest).map (chars ++ ·) := by
  induction chars with
  | nil => exact (congrFun Except.map_id _).symm
  | cons c cs ih =>
    have hmap := map_append [c] cs (fillFrom template args rest)
    rw [List.flatMap_cons, List.append_assoc]
    by_cases hc : c = '%'
    · rw [if_pos hc, List.cons_append, List.singleton_append, fillFrom_percent, ih, ← hc]
      exact hmap
    · rw [if_neg hc, List.singleton_append, fillFrom_char hc, ih]
      exact hmap

/-! ### Numbers with places -/

/-- Filling the template gets to the directive `d` and writes the number `x` under it, with `d.places` places. -/
inductive Writes (d : Directive) (x : Float) : List Value → List Char → Prop where
  | here {arg : Value} {args : List Value} {cs : List Char} (hverb : d.verb = 'f') (hx : arg.float? = some x) :
    Writes d x (arg :: args) ('%' :: (d.chars ++ cs))
  | char {c : Char} {args : List Value} {cs : List Char} (hc : c ≠ '%') (h : Writes d x args cs) :
    Writes d x args (c :: cs)
  | percent (before : Directive) {args : List Value} {cs : List Char} (hverb : before.verb = '%')
    (h : Writes d x args cs) : Writes d x args ('%' :: (before.chars ++ cs))
  | next (before : Directive) {arg : Value} {args : List Value} {cs : List Char} {text : String}
    (hverb : before.verb ≠ '%') (hfill : fill before.verb before.places? arg = .ok text)
    (h : Writes d x args cs) : Writes d x (arg :: args) ('%' :: (before.chars ++ cs))

theorem fill_number {arg : Value} {x : Float} (hx : arg.float? = some x) (precision : Option Nat) :
    fill 'f' precision arg = withPlaces (precision.getD defaultPlaces) x := by
  simp only [fill, hx]

/-- Only a number under `f` has places. -/
theorem exists_of_fill {verb : Char} {precision : Option Nat} {arg : Value} {n : Nat}
    (h : fill verb precision arg = .error (.tooManyPlaces n)) :
    verb = 'f' ∧ ∃ x, arg.float? = some x ∧ precision.getD defaultPlaces = n ∧ maxPlaces < n := by
  unfold fill at h
  split at h
  · cases h
  · cases h
  · split at h
    · cases h
    · cases h
  · split at h
    · rename_i x hx
      refine ⟨rfl, x, hx, ?_⟩
      unfold withPlaces at h
      split at h
      · rename_i hmax
        cases h
        exact ⟨rfl, hmax⟩
      · cases h
    · cases h
  · split at h
    · cases h
    · cases h
  · cases h

variable {cs : List Char} {n : Nat}

theorem Writes.fillFrom_eq {d : Directive} {x : Float} (h : Writes d x args cs) (hmax : maxPlaces < d.places) :
    fillFrom template args cs = .error (.tooManyPlaces d.places) := by
  induction h with
  | here hverb hx =>
    have hfill := fill_number hx d.places?
    rw [withPlaces, ← Directive.places, if_pos hmax] at hfill
    rw [fillFrom_directive, hverb, if_neg (by decide)]
    simp only [hfill]
    rfl
  | char hc h ih =>
    rw [fillFrom_char hc, ih]
    rfl
  | percent before hverb h ih =>
    rw [fillFrom_directive, if_pos hverb, ih]
    rfl
  | next before hverb hfill h ih =>
    rw [fillFrom_directive, if_neg hverb]
    simp only [hfill, ih]
    rfl

theorem eq_error_of_map {f : List Char → List Char} {filled : Except Error (List Char)} {e : Error}
    (h : filled.map f = .error e) : filled = .error e := by
  cases filled with
  | error => exact h
  | ok => cases h

/-- Filling goes wrong at the first number with too many places. -/
theorem exists_writes (h : fillFrom template args cs = .error (.tooManyPlaces n)) :
    ∃ d x, Writes d x args cs ∧ d.places = n ∧ maxPlaces < n := by
  fun_induction fillFrom template args cs with
  | case1 => cases h
  | case2 args c cs hc ih =>
    obtain ⟨d, x, hwrites, hplaces⟩ := ih (eq_error_of_map h)
    exact ⟨d, x, .char hc hwrites, hplaces⟩
  | case3 => cases h
  | case4 args c cs hc precision rest htake _ ih =>
    obtain rfl : c = '%' := Classical.not_not.1 hc
    obtain ⟨before, rfl, -, hverb⟩ := exists_directive htake
    obtain ⟨d, x, hwrites, hplaces⟩ := ih (eq_error_of_map h)
    exact ⟨d, x, .percent before hverb hwrites, hplaces⟩
  | case5 => cases h
  | case6 c cs hc precision verb rest htake _ hverb arg args ih =>
    obtain rfl : c = '%' := Classical.not_not.1 hc
    obtain ⟨before, rfl, rfl, rfl⟩ := exists_directive htake
    cases hfill : fill before.verb before.places? arg with
    | error e =>
      rw [hfill] at h
      cases h
      obtain ⟨hf, x, hx, hplaces⟩ := exists_of_fill hfill
      exact ⟨before, x, .here hf hx, hplaces⟩
    | ok text =>
      rw [hfill] at h
      have hrest : fillFrom template args rest = .error (.tooManyPlaces n) := by
        cases hfilled : fillFrom template args rest with
        | error e =>
          rw [hfilled] at h
          exact h
        | ok tail =>
          rw [hfilled] at h
          cases h
      obtain ⟨d, x, hwrites, hplaces⟩ := ih hrest
      exact ⟨d, x, .next before hverb hfill hwrites, hplaces⟩

theorem fillFrom_eq_tooManyPlaces_iff : fillFrom template args cs = .error (.tooManyPlaces n) ↔
    ∃ d x, Writes d x args cs ∧ d.places = n ∧ maxPlaces < n := by
  refine ⟨exists_writes, ?_⟩
  rintro ⟨d, x, hwrites, rfl, hmax⟩
  exact hwrites.fillFrom_eq hmax

theorem format_eq_tooManyPlaces_iff : format template args = .error (.tooManyPlaces n) ↔
    ∃ d x, Writes d x args template.toList ∧ d.places = n ∧ maxPlaces < n := by
  have hiff : fillFrom template args template.toList = .error (.tooManyPlaces n) ↔ _ :=
    fillFrom_eq_tooManyPlaces_iff
  rw [← hiff, format]
  cases fillFrom template args template.toList <;> simp [Except.map]

/-- No number is written with more than 65535 places exactly if filling the template does not break down, and it breaks down exactly where the digits of a directive that is reached spell a number above that and below 2⁶⁴. -/
theorem places_le_iff (template : String) (args : List Value) :
    ((∀ d x, Writes d x args template.toList → d.places ≤ 65535) ↔
      ∀ n, format template args ≠ .error (.tooManyPlaces n)) ∧
    ∀ n, format template args = .error (.tooManyPlaces n) ↔
      ∃ d x digits, Writes d x args template.toList ∧ d.precision = some digits ∧
        Decimal.natOfDigits digits = n ∧ 65535 < n ∧ n < 0x10000000000000000 := by
  refine ⟨?_, fun n => ?_⟩
  · constructor
    · intro hall n hbreaks
      obtain ⟨d, x, hwrites, rfl, hmax⟩ := format_eq_tooManyPlaces_iff.1 hbreaks
      exact Nat.not_lt.2 (hall d x hwrites) hmax
    · intro hnever d x hwrites
      refine Nat.not_lt.1 fun hmax => hnever d.places ?_
      exact format_eq_tooManyPlaces_iff.2 ⟨d, x, hwrites, rfl, hmax⟩
  · rw [format_eq_tooManyPlaces_iff]
    constructor
    · rintro ⟨d, x, hwrites, hplaces⟩
      obtain ⟨digits, hprecision, hn⟩ := (d.places_eq_iff n).1 hplaces
      exact ⟨d, x, digits, hwrites, hprecision, hn⟩
    · rintro ⟨d, x, digits, hwrites, hprecision, hn⟩
      exact ⟨d, x, hwrites, (d.places_eq_iff n).2 ⟨digits, hprecision, hn⟩⟩

/-- One place more than a number can be written with: the digits are a word, so they count. -/
theorem places_not_le : (∃ d x, Writes d x [.int 2] "%.65536f".toList ∧ d.places = 65536) ∧
    format "%.65536f" [.int 2] = .error (.tooManyPlaces 65536) := by
  have htake : takePrecision ".65536f".toList = (some 65536, ['f']) := by decide
  obtain ⟨d, hchars, hplaces?, hverb⟩ := exists_directive htake
  have hwrites : Writes d (Number.toFloat (.int 2)) [.int 2] "%.65536f".toList := by
    rw [show "%.65536f".toList = '%' :: ".65536f".toList from rfl, hchars]
    exact .here hverb rfl
  have hplaces : d.places = 65536 := by rw [Directive.places, hplaces?, Option.getD_some]
  exact ⟨⟨d, _, hwrites, hplaces⟩, format_eq_tooManyPlaces_iff.2 ⟨d, _, hwrites, hplaces, by decide⟩⟩

end TwinShell.Template
