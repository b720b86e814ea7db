import TwinShell.Proofs.Path

/-!
# What a path means

A path is meant to be read segment by segment: a name goes down, `.` stays and `..` goes up, and in the end an abbreviated first segment gets its full name. Empty segments, which come from doubled slashes, are meant to count for nothing. Resolving gathers them like names and drops them last, so that a `..` can take back an empty segment in place of a name, and an abbreviation can hide behind one. These are the only two ways in which a path is not resolved to what it means.
-/

namespace TwinShell.Path

/-- The words between the slashes of a path, without the slash that makes it absolute. -/
def words (raw : String) : List String :=
  match raw.toList with
  | '/' :: rest => Text.split '/' (String.ofList rest)
  | _ => Text.split '/' raw

/-- Where a path starts: at the root if it is absolute, in the directory otherwise. -/
def start (raw current : String) : List String :=
  match raw.toList with
  | '/' :: _ => []
  | _ => segments current

/-- The segments of the place that `raw` means in the directory `current`. -/
def meaning (raw current : String) : List String :=
  expandFirst ((segments raw).foldl step (start raw current))

/-- What resolving gathers before it expands and cleans: empty segments are kept like names. -/
def gathered (raw current : String) : List String := (words raw).foldl step (start raw current)

/-- The segments that are not empty. -/
def named (segs : List String) : List String := segs.filter (· ≠ "")

/-- An empty segment in front keeps an abbreviation from being expanded. -/
def HidesAbbreviation (segs : List String) : Prop :=
  segs.head? = some "" ∧ expandFirst (named segs) ≠ named segs

instance (segs : List String) : Decidable (HidesAbbreviation segs) := inferInstanceAs (Decidable (_ ∧ _))

/-! ### Empty segments -/

@[simp] theorem named_append (a b : List String) : named (a ++ b) = named a ++ named b := List.filter_append ..

@[simp] theorem named_empty : named [""] = [] := rfl

theorem named_cons_of_ne {s : String} (hs : s ≠ "") (rest : List String) :
    named (s :: rest) = s :: named rest := List.filter_cons_of_pos (decide_eq_true hs)

theorem named_of_not_mem {segs : List String} (h : "" ∉ segs) : named segs = segs :=
  List.filter_eq_self.2 fun _ hs => decide_eq_true fun heq => h (heq ▸ hs)

theorem fullName_eq_empty_iff {s : String} : fullName s = "" ↔ s = "" := by
  unfold fullName
  split
  · simp_all
  split
  · simp_all
  split
  · simp_all
  · rfl

theorem fullName_fullName (s : String) : fullName (fullName s) = fullName s := by
  by_cases hphysical : s = "P"
  · subst hphysical
    rfl
  by_cases hlogical : s = "L"
  · subst hlogical
    rfl
  by_cases horganisation : s = "O"
  · subst horganisation
    rfl
  · have hself : fullName s = s := by
      rw [fullName, if_neg hphysical, if_neg hlogical, if_neg horganisation]
    rw [hself, hself]

theorem expandFirst_expandFirst (segs : List String) : expandFirst (expandFirst segs) = expandFirst segs := by
  cases segs with
  | nil => rfl
  | cons first rest => rw [expandFirst, expandFirst, fullName_fullName]

theorem length_expandFirst (segs : List String) : (expandFirst segs).length = segs.length := by
  cases segs <;> rfl

/-- Expanding and cleaning can be exchanged unless an empty segment stands in front. -/
theorem named_expandFirst (segs : List String) : named (expandFirst segs) =
    if segs.head? = some "" then named segs else expandFirst (named segs) := by
  cases segs with
  | nil => rfl
  | cons first rest =>
    by_cases hfirst : first = ""
    · subst hfirst
      rfl
    · rw [if_neg (by simpa using hfirst), named_cons_of_ne hfirst, expandFirst, expandFirst,
        named_cons_of_ne (mt fullName_eq_empty_iff.1 hfirst)]

/-- What is left can be expanded once more only if an abbreviation was hidden. -/
theorem expandFirst_named_iff (segs : List String) :
    expandFirst (named (expandFirst segs)) = named (expandFirst segs) ↔ ¬HidesAbbreviation segs := by
  rw [named_expandFirst, HidesAbbreviation]
  split
  · rename_i hhead
    simp [hhead]
  · rename_i hhead
    simp [hhead, expandFirst_expandFirst]

/-! ### Two readings side by side -/

/-- What is gathered without its empty segments is what the names alone lead to, or longer. -/
def Ahead (segs names : List String) : Prop :=
  named segs = names ∨ names.length < (named segs).length

theorem Ahead.eq_of_length {segs names : List String} (h : Ahead segs names)
    (hlength : (named segs).length = names.length) : named segs = names :=
  h.resolve_right (by omega)

/-- Going up in both readings. The one that is longer goes on being longer, unless the other one is at the root; then it has caught up when it gets there itself. -/
theorem Ahead.dropLast {segs names : List String} (h : Ahead segs names) :
    Ahead segs.dropLast names.dropLast := by
  rcases List.eq_nil_or_concat segs with rfl | ⟨front, last, rfl⟩
  · rcases h with rfl | hlt
    · exact .inl rfl
    · cases hlt
  rw [List.concat_eq_append] at h ⊢
  rw [List.dropLast_concat]
  by_cases hlast : last = ""
  · subst hlast
    rw [Ahead, named_append, named_empty, List.append_nil] at h
    rcases h with rfl | hlt
    · by_cases hnil : named front = []
      · exact .inl (by rw [hnil, List.dropLast_nil])
      · refine .inr ?_
        have hpos := List.length_pos_iff.2 hnil
        rw [List.length_dropLast]
        omega
    · exact .inr (Nat.lt_of_le_of_lt (by rw [List.length_dropLast]; omega) hlt)
  · rw [Ahead, named_append, named_cons_of_ne hlast, show named [] = [] from rfl] at h
    rcases h with rfl | hlt
    · exact .inl (by rw [List.dropLast_concat])
    · rw [List.length_append, List.length_singleton] at hlt
      by_cases hnames : names.length < (named front).length
      · exact .inr (by rw [List.length_dropLast]; omega)
      · rcases List.eq_nil_or_concat names with rfl | ⟨_, _, rfl⟩
        · exact .inl (List.eq_nil_of_length_eq_zero (by simp at hlt hnames ⊢; omega))
        · refine .inr ?_
          rw [List.length_dropLast]
          rw [List.concat_eq_append, List.length_append, List.length_singleton] at hlt hnames ⊢
          omega

theorem Ahead.step {segs names : List String} (h : Ahead segs names) (word : String) :
    Ahead (step segs word) (if word = "" then names else Path.step names word) := by
  by_cases hempty : word = ""
  · subst hempty
    rw [if_pos rfl, Path.step, if_neg (by decide), if_neg (by decide), Ahead, named_append, named_empty,
      List.append_nil]
    exact h
  rw [if_neg hempty, Path.step, Path.step]
  split
  · exact h
  split
  · exact h.dropLast
  · rw [Ahead, named_append, named_cons_of_ne hempty, show named [] = [] from rfl, List.length_append,
      List.length_append, List.append_left_inj, List.length_singleton, Nat.add_lt_add_iff_right]
    exact h

theorem Ahead.foldl (words : List String) {segs names : List String} (h : Ahead segs names) :
    Ahead (words.foldl Path.step segs) ((named words).foldl Path.step names) := by
  induction words generalizing segs names with
  | nil => exact h
  | cons word words ih =>
    have hfirst := h.step word
    by_cases hempty : word = ""
    · subst hempty
      exact ih hfirst
    · rw [if_neg hempty] at hfirst
      rw [named_cons_of_ne hempty]
      exact ih hfirst

/-- The two readings lead to the same place exactly if nothing was taken back in place of a name and nothing is hidden. -/
theorem Ahead.named_expandFirst_iff {segs names : List String} (h : Ahead segs names) :
    named (expandFirst segs) = expandFirst names ↔ named segs = names ∧ ¬HidesAbbreviation segs := by
  constructor
  · intro heq
    have hlength : (named segs).length = names.length := by
      rw [← length_expandFirst names, ← heq, named_expandFirst]
      split
      · rfl
      · rw [length_expandFirst]
    obtain rfl := h.eq_of_length hlength
    refine ⟨rfl, (expandFirst_named_iff segs).1 ?_⟩
    rw [heq, expandFirst_expandFirst]
  · rintro ⟨rfl, hhides⟩
    rw [← (expandFirst_named_iff segs).2 hhides, named_expandFirst]
    split
    · rfl
    · rw [expandFirst_expandFirst]

/-! ### Resolving -/

section

variable {raw : String} {rest : List Char}

theorem start_of_absolute (hraw : raw.toList = '/' :: rest) (current : String) : start raw current = [] := by
  simp only [start, hraw]

theorem start_of_relative (hraw : ∀ rest, raw.toList ≠ '/' :: rest) (current : String) :
    start raw current = segments current := by
  unfold start
  split
  · exact absurd ‹_› (hraw _)
  · rfl

theorem words_of_relative (hraw : ∀ rest, raw.toList ≠ '/' :: rest) : words raw = Text.split '/' raw := by
  unfold words
  split
  · exact absurd ‹_› (hraw _)
  · rfl

/-- The slash that makes a path absolute has nothing in front of it. -/
theorem split_of_absolute (hraw : raw.toList = '/' :: rest) : Text.split '/' raw = "" :: words raw := by
  simp only [words, hraw]
  rw [Text.split, hraw, Text.pieces, if_pos rfl, Text.split, String.toList_ofList]
  rfl

end

theorem named_words (raw : String) : named (words raw) = segments raw := by
  by_cases habsolute : ∃ rest, raw.toList = '/' :: rest
  · obtain ⟨rest, hraw⟩ := habsolute
    rw [segments, split_of_absolute hraw]
    rfl
  · rw [words_of_relative fun rest hraw => habsolute ⟨rest, hraw⟩]
    rfl

theorem not_slash_of_mem_words {raw word : String} (h : word ∈ words raw) : '/' ∉ word.toList := by
  unfold words at h
  split at h
  · exact not_slash_of_mem_split h
  · exact not_slash_of_mem_split h

variable {raw current : String}

theorem isWord_start (raw : String) (hcurrent : Canonical current) : ∀ s ∈ start raw current, IsWord s := by
  unfold start
  split
  · exact nofun
  · exact hcurrent.isWord

theorem isWord_gathered (hstart : ∀ s ∈ start raw current, IsWord s) : ∀ s ∈ gathered raw current, IsWord s :=
  isWord_foldl_step hstart fun _ => not_slash_of_mem_words

/-- Resolving drops the empty segments it has gathered after it has expanded the first one. -/
theorem resolve_eq_named (hselection : raw ≠ selection) (hminus : raw ≠ "-")
    (hstart : ∀ s ∈ start raw current, IsWord s) (previous : String) :
    resolve raw current previous = ofSegments (named (expandFirst (gathered raw current))) := by
  have hclean : ∀ segs : List String, (∀ s ∈ segs, IsWord s) →
      clean (ofSegments (expandFirst segs)) = ofSegments (named (expandFirst segs)) := by
    intro segs hsegs
    rw [clean, segments_ofSegments fun s hs => (isWord_expandFirst hsegs s hs).no_slash]
    rfl
  by_cases hempty : raw = ""
  · -- The empty path gathers one empty segment, which comes to the same as staying where it is.
    subst hempty
    have hgathered : gathered "" current = segments current ++ [""] := rfl
    have hresolve : resolve "" current previous = clean (ofSegments (expandFirst (segments current))) := rfl
    rw [hresolve, hclean (segments current) hstart, hgathered]
    cases segments current with
    | nil => rfl
    | cons first rest =>
      rw [List.cons_append, expandFirst, expandFirst, ← List.cons_append, named_append, named_empty,
        List.append_nil]
  · rw [← hclean _ (isWord_gathered hstart)]
    unfold resolve
    simp only [if_neg hempty, if_neg hselection, if_neg hminus]
    congr 3
    unfold gathered
    split
    · rename_i rest hraw
      simp only [start, words, hraw]
    · rename_i hraw
      rw [start_of_relative hraw, words_of_relative hraw]

theorem isSegment_named {segs : List String} (h : ∀ s ∈ segs, IsWord s) : ∀ s ∈ named segs, IsSegment s := by
  intro s hs
  obtain ⟨hs, hne⟩ := List.mem_filter.1 hs
  exact ⟨by simpa using hne, (h s hs).no_slash, (h s hs).ne_dot, (h s hs).ne_dots⟩

theorem IsSegment.isWord {s : String} (h : IsSegment s) : IsWord s := ⟨h.no_slash, h.ne_dot, h.ne_dots⟩

theorem named_of_isSegment {segs : List String} (h : ∀ s ∈ segs, IsSegment s) : named segs = segs :=
  named_of_not_mem fun hmem => (h "" hmem).ne_empty rfl

/-- Expanding leaves segments that are not empty. -/
theorem isSegment_expandFirst {segs : List String} (h : ∀ s ∈ segs, IsSegment s) :
    ∀ s ∈ expandFirst segs, IsSegment s := by
  have hnamed : named (expandFirst segs) = expandFirst segs := by
    rw [named_expandFirst, named_of_isSegment h, if_neg]
    exact fun hhead => (h "" (List.mem_of_mem_head? hhead)).ne_empty rfl
  rw [← hnamed]
  exact isSegment_named (isWord_expandFirst fun s hs => (h s hs).isWord)

theorem ofSegments_inj {a b : List String} (ha : ∀ s ∈ a, IsSegment s) (hb : ∀ s ∈ b, IsSegment s) :
    ofSegments a = ofSegments b ↔ a = b := by
  refine ⟨fun h => ?_, congrArg ofSegments⟩
  rw [← segments_of_isSegment ha, h, segments_of_isSegment hb]

/-- Resolving a path in canonical form only expands its first segment. -/
theorem resolve_of_isSegment {segs : List String} (hsegs : ∀ s ∈ segs, IsSegment s)
    (current previous : String) :
    resolve (ofSegments segs) current previous = ofSegments (expandFirst segs) := by
  have hcanonical : Canonical (ofSegments segs) := ⟨segs, rfl, hsegs⟩
  have habsolute := toList_ofSegments segs
  have hminus : ofSegments segs ≠ "-" := by
    intro heq
    rw [← String.toList_inj, habsolute] at heq
    exact absurd (List.cons.inj heq).1 (by decide)
  have hstart := start_of_absolute habsolute current
  rw [resolve_eq_named hcanonical.ne_selection hminus (hstart ▸ nofun) previous, gathered, hstart]
  by_cases hnil : segs = []
  · subst hnil
    rfl
  · have hwords : words (ofSegments segs) = segs := by
      have hsplit := split_of_absolute habsolute
      rw [split_ofSegments (fun s hs => (hsegs s hs).no_slash) hnil] at hsplit
      exact (List.cons.inj hsplit).2.symm
    rw [hwords, foldl_step_of_isSegment hsegs, List.nil_append,
      named_of_isSegment (isSegment_expandFirst hsegs)]

/-! ### When a path is resolved to what it means -/

theorem not_mem_foldl_step {words segs : List String} (hsegs : "" ∉ segs) (hwords : "" ∉ words) :
    "" ∉ words.foldl step segs := by
  induction words generalizing segs with
  | nil => exact hsegs
  | cons word words ih =>
    rw [List.mem_cons, not_or] at hwords
    refine ih ?_ hwords.2
    unfold step
    split
    · exact hsegs
    split
    · exact fun hmem => hsegs (List.dropLast_subset segs hmem)
    · rw [List.mem_append, List.mem_singleton]
      exact fun hmem => hmem.elim hsegs hwords.1

theorem not_mem_segments (path : String) : "" ∉ segments path :=
  fun hmem => of_decide_eq_true (List.mem_filter.1 hmem).2 rfl

theorem not_mem_start (raw current : String) : "" ∉ start raw current := by
  unfold start
  split
  · exact List.not_mem_nil
  · exact not_mem_segments current

theorem not_hidesAbbreviation_of_not_mem {segs : List String} (h : "" ∉ segs) : ¬HidesAbbreviation segs :=
  fun hhides => h (List.mem_of_mem_head? hhides.1)

theorem isSegment_meaning (raw : String) (hcurrent : Canonical current) :
    ∀ s ∈ meaning raw current, IsSegment s := by
  have hempty := not_mem_foldl_step (not_mem_start raw current) (not_mem_segments raw)
  refine isSegment_expandFirst ?_
  rw [← named_of_not_mem hempty]
  exact isSegment_named (isWord_foldl_step (isWord_start raw hcurrent) fun _ => not_slash_of_mem_segments)

/-- An empty segment after the last slash takes nothing back and hides nothing. -/
theorem named_gathered_of_not_mem (h : "" ∉ (words raw).dropLast) (current : String) :
    named (gathered raw current) = (segments raw).foldl step (start raw current) ∧
      ¬HidesAbbreviation (gathered raw current) := by
  have hstart := not_mem_start raw current
  rw [← named_words, gathered]
  rcases List.eq_nil_or_concat (words raw) with hwords | ⟨front, last, hwords⟩
  · rw [hwords]
    exact ⟨named_of_not_mem hstart, not_hidesAbbreviation_of_not_mem hstart⟩
  rw [List.concat_eq_append] at hwords
  rw [hwords, List.dropLast_concat] at h
  rw [hwords, named_append, named_of_not_mem h, List.foldl_append, List.foldl_append]
  have hfront := not_mem_foldl_step hstart h
  generalize front.foldl step (start raw current) = sofar at hfront
  by_cases hlast : last = ""
  · subst hlast
    have hstep : [""].foldl step sofar = sofar ++ [""] := rfl
    rw [hstep, named_append, named_of_not_mem hfront, named_empty, List.append_nil]
    refine ⟨rfl, fun hhides => ?_⟩
    cases sofar with
    | nil => exact hhides.2 rfl
    | cons first rest => exact hfront (List.mem_cons.2 (.inl (Option.some.inj hhides.1).symm))
  · have hkept : "" ∉ [last].foldl step sofar :=
      not_mem_foldl_step hfront (by simpa using Ne.symm hlast)
    rw [named_of_not_mem hkept, named_of_not_mem (by simpa using Ne.symm hlast)]
    exact ⟨rfl, not_hidesAbbreviation_of_not_mem hkept⟩

/-- A path means what its segments say one after the other. Resolving leads there exactly if no `..` took back an empty segment in place of a name, and no empty segment hides an abbreviation; resolving again changes nothing exactly if none is hidden. A path whose only empty segment stands after its last slash is always resolved to what it means. -/
theorem resolve_eq_meaning_iff (raw current previous : String) (hselection : raw ≠ selection)
    (hminus : raw ≠ "-") (hcurrent : Canonical current) :
    Canonical (resolve raw current previous) ∧
    (resolve raw current previous = ofSegments (meaning raw current) ↔
      named (gathered raw current) = (segments raw).foldl step (start raw current) ∧
        ¬HidesAbbreviation (gathered raw current)) ∧
    (∀ current' previous', resolve (resolve raw current previous) current' previous' =
      resolve raw current previous ↔ ¬HidesAbbreviation (gathered raw current)) ∧
    ("" ∉ (words raw).dropLast → resolve raw current previous = ofSegments (meaning raw current)) := by
  have hstart := isWord_start raw hcurrent
  have hresolve := resolve_eq_named hselection hminus hstart previous
  have hsegs := isSegment_named (isWord_expandFirst (isWord_gathered hstart))
  have hahead : Ahead (gathered raw current) ((segments raw).foldl step (start raw current)) :=
    named_words raw ▸ Ahead.foldl (words raw) (.inl (named_of_not_mem (not_mem_start raw current)))
  have hmeaning : resolve raw current previous = ofSegments (meaning raw current) ↔
      named (gathered raw current) = (segments raw).foldl step (start raw current) ∧
        ¬HidesAbbreviation (gathered raw current) := by
    rw [hresolve, ofSegments_inj hsegs (isSegment_meaning raw hcurrent), meaning]
    exact hahead.named_expandFirst_iff
  refine ⟨⟨_, hresolve, hsegs⟩, hmeaning, fun current' previous' => ?_, fun hwords => ?_⟩
  · rw [hresolve, resolve_of_isSegment hsegs, ofSegments_inj (isSegment_expandFirst hsegs) hsegs]
    exact expandFirst_named_iff _
  · exact hmeaning.2 (named_gathered_of_not_mem hwords current)

/-- A doubled slash that does no harm: going up comes before it, and it is not in front. -/
theorem resolve_eq_meaning_doubled_slash : "..//P/" ≠ selection ∧ "..//P/" ≠ "-" ∧
    Canonical "/Physical/a" ∧ resolve "..//P/" "/Physical/a" "/" = "/Physical/P" := by
  have hcanonical : Canonical "/Physical/a" := by decide
  have hmeaning : ofSegments (meaning "..//P/" "/Physical/a") = "/Physical/P" := by decide +kernel
  refine ⟨by decide, by decide, hcanonical, ?_⟩
  rw [← hmeaning]
  exact (resolve_eq_meaning_iff _ _ _ (by decide) (by decide) hcanonical).2.1.2
    ⟨by decide +kernel, by decide +kernel⟩

/-- In `/a//..` the step up takes back the empty segment; in `//P` the empty segment hides the abbreviation, so that the result can be resolved further. -/
theorem resolve_ne_meaning_doubled_slash : Canonical "/" ∧
    resolve "/a//.." "/" "/" ≠ ofSegments (meaning "/a//.." "/") ∧
    resolve "//P" "/" "/" ≠ ofSegments (meaning "//P" "/") ∧
    resolve (resolve "//P" "/" "/") "/" "/" ≠ resolve "//P" "/" "/" := by
  refine ⟨by decide, ?_, ?_, ?_⟩ <;> decide +kernel

end TwinShell.Path
