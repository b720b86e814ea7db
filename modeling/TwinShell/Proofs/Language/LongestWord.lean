import TwinShell.Proofs.Language.RoundTrip
import Mathlib.Data.List.MinMax
import Mathlib.Data.List.Nodup

/-!
# The longest word of a table

The walk along a table goes on as long as some word agrees with the line, and looks only then whether it has come to the end of one. So it may run past a word into the beginning of a longer one, and stop in the middle of that: the shorter word is not found, although the line starts with it. In the tables of the language this does no harm. Wherever a word goes on to a longer one, it does so inside a name, and a word that ends inside a name does not count anyway. So what is found is the longest word that the line starts with.
-/

namespace TwinShell.Language

open TwinShell.Language.Parser (keyword? walkTable endsLikeName)

variable {α : Type}

/-! ### The walk along a table -/

section Walk

variable {table : List (List Char × α)} {text : List Char} {n : Nat} {found : Option α} {c : Char}

/-- What the words of a table that start with `c` go on with. -/
def behind (c : Char) (table : List (List Char × α)) : List (List Char × α) :=
  table.filterMap fun (word, a) =>
    match word with
    | d :: ds => if d = c then some (ds, a) else none
    | [] => none

theorem mem_behind {word : List Char} {a : α} : (word, a) ∈ behind c table ↔ (c :: word, a) ∈ table := by
  rw [behind, List.mem_filterMap]
  constructor
  · rintro ⟨⟨_ | ⟨d, ds⟩, b⟩, hentry, heq⟩
    · cases heq
    · dsimp only at heq
      split at heq
      · rename_i hd
        subst hd
        cases heq
        exact hentry
      · cases heq
  · exact fun hentry => ⟨_, hentry, if_pos rfl⟩

theorem walkTable_cons (table : List (List Char × α)) (c : Char) (text : List Char) :
    walkTable table (c :: text) =
      if (behind c table).isEmpty then (0, (table.find? (·.1.isEmpty)).map (·.2))
      else ((walkTable (behind c table) text).1 + 1, (walkTable (behind c table) text).2) := by
  rw [walkTable]
  rfl

/-- The walk along a table ends after `n` characters of the text: as far as some word agrees, with the entry whose word ends there. -/
structure Walk (table : List (List Char × α)) (text : List Char) (n : Nat) (found : Option α) : Prop where
  le_length : n ≤ text.length
  agrees : n = 0 ∨ ∃ entry ∈ table, text.take n <+: entry.1
  farthest : ∀ entry ∈ table, ∀ start, start <+: text → start <+: entry.1 → start.length ≤ n
  mem : ∀ a ∈ found, (text.take n, a) ∈ table
  missing : found = none → ∀ a, (text.take n, a) ∉ table

/-- No word agrees with the next character. -/
theorem Walk.stop (h : ∀ entry ∈ table, ∀ start, start <+: text → start <+: entry.1 → start = []) :
    Walk table text 0 ((table.find? (·.1.isEmpty)).map (·.2)) where
  le_length := Nat.zero_le _
  agrees := .inl rfl
  farthest entry hentry start htext hword := by rw [h entry hentry start htext hword, List.length_nil]
  mem a ha := by
    obtain ⟨⟨word, b⟩, hfind, rfl⟩ := Option.map_eq_some_iff.1 ha
    obtain rfl : word = [] := by simpa using List.find?_some hfind
    exact List.mem_of_find?_eq_some hfind
  missing hnone a ha := by
    rw [Option.map_eq_none_iff, List.find?_eq_none] at hnone
    exact hnone _ ha rfl

theorem Walk.step (hne : behind c table ≠ []) (h : Walk (behind c table) text n found) :
    Walk table (c :: text) (n + 1) found where
  le_length := Nat.succ_le_succ h.le_length
  agrees := by
    obtain ⟨⟨word, a⟩, hword⟩ := List.exists_mem_of_ne_nil _ hne
    rcases h.agrees with rfl | ⟨entry, hentry, hagrees⟩
    · exact .inr ⟨_, mem_behind.1 hword, List.prefix_append [c] word⟩
    · exact .inr ⟨_, mem_behind.1 hentry, (List.prefix_cons_inj c).2 hagrees⟩
  farthest entry hentry start htext hword := by
    cases start with
    | nil => exact Nat.zero_le _
    | cons d start =>
      obtain ⟨rfl, htext'⟩ := List.cons_prefix_cons.1 htext
      obtain ⟨_ | ⟨e, word⟩, a⟩ := entry
      · cases List.prefix_nil.1 hword
      · obtain ⟨rfl, hword'⟩ := List.cons_prefix_cons.1 hword
        exact Nat.succ_le_succ (h.farthest _ (mem_behind.2 hentry) start htext' hword')
  mem a ha := mem_behind.1 (h.mem a ha)
  missing hnone a ha := h.missing hnone a (mem_behind.2 ha)

theorem walk_walkTable (table : List (List Char × α)) (text : List Char) :
    Walk table text (walkTable table text).1 (walkTable table text).2 := by
  induction text generalizing table with
  | nil => exact .stop fun _ _ _ htext _ => List.prefix_nil.1 htext
  | cons c text ih =>
    rw [walkTable_cons]
    split
    · rename_i hnone
      refine .stop fun entry hentry start htext hword => ?_
      cases start with
      | nil => rfl
      | cons d start =>
        obtain ⟨rfl, -⟩ := List.cons_prefix_cons.1 htext
        obtain ⟨_ | ⟨e, word⟩, a⟩ := entry
        · cases List.prefix_nil.1 hword
        · obtain ⟨rfl, -⟩ := List.cons_prefix_cons.1 hword
          have hmem := mem_behind.2 hentry
          rw [List.isEmpty_iff.1 hnone] at hmem
          cases hmem
    · rename_i hsome
      exact (ih _).step (mt List.isEmpty_iff.2 hsome)

end Walk

/-! ### The longest word -/

variable {table : List (String × α)} {text : List Char} {word : String} {a : α}

/-- The longest word of a table that a text starts with, with its entry. -/
def longest? (table : List (String × α)) (text : List Char) : Option (String × α) :=
  (table.filter fun entry => entry.1.toList.isPrefixOf text).argmax fun entry => entry.1.length

/-- A word that ends like a name at the start of a text, with a character of a name behind it. -/
def runsOn (word : String) (text : List Char) : Bool :=
  endsLikeName word && text[word.length]?.any Text.isNameChar

theorem mem_filter_isPrefixOf {entry : String × α} :
    entry ∈ table.filter (fun entry => entry.1.toList.isPrefixOf text) ↔
      entry ∈ table ∧ entry.1.toList <+: text := by
  rw [List.mem_filter, List.isPrefixOf_iff_prefix]

theorem mem_of_longest? (h : longest? table text = some (word, a)) :
    (word, a) ∈ table ∧ word.toList <+: text :=
  mem_filter_isPrefixOf.1 (List.argmax_mem h)

theorem le_of_longest? (h : longest? table text = some (word, a)) {entry : String × α} (hentry : entry ∈ table)
    (hstarts : entry.1.toList <+: text) : entry.1.length ≤ word.length :=
  List.le_of_mem_argmax (f := fun entry : String × α => entry.1.length) (mem_filter_isPrefixOf.2 ⟨hentry, hstarts⟩) h

theorem not_prefix_of_longest? (h : longest? table text = none) {entry : String × α} (hentry : entry ∈ table) :
    ¬entry.1.toList <+: text := by
  intro hstarts
  have hmem := mem_filter_isPrefixOf.2 ⟨hentry, hstarts⟩
  rw [List.argmax_eq_none.1 h] at hmem
  cases hmem

/-- No word is in the table twice, and wherever a word goes on to another one it does so inside a name. -/
structure WellSpaced (words : List String) : Prop where
  nodup : words.Nodup
  inside : ∀ word ∈ words, ∀ longer ∈ words, word.toList <+: longer.toList → word ≠ longer →
    runsOn word longer.toList

/-- What is found at a place is the longest word of the table that the line goes on with, unless it ends inside a name. -/
def FindsLongest (table : List (String × α)) : Prop :=
  ∀ (ctx : Context) (c : Cursor), keyword? table ctx c =
    match longest? table c.rest with
    | some (word, a) => if runsOn word c.rest then .ok none c else .ok (some (word, a)) (c.skip word.length)
    | none => .ok none c

/-- A walk that goes on behind a word ends inside another one, so that the character behind the word belongs to both. -/
theorem runsOn_of_agrees {longer : String} {n : Nat} (hlt : word.length < n) (hn : n ≤ text.length)
    (hagrees : text.take n <+: longer.toList) (h : runsOn word longer.toList) : runsOn word text := by
  have hnext : longer.toList[word.length]? = text[word.length]? := by
    have hlength : word.length < (text.take n).length := by rwa [List.length_take_of_le hn]
    rw [List.prefix_iff_getElem?.1 hagrees _ hlength, List.getElem_take, List.getElem?_eq_getElem]
  rwa [runsOn, hnext] at h

def charTable (table : List (String × α)) : List (List Char × α) := table.map fun (word, a) => (word.toList, a)

theorem mem_charTable {chars : List Char} : (chars, a) ∈ charTable table ↔ (String.ofList chars, a) ∈ table := by
  rw [charTable, List.mem_map]
  constructor
  · rintro ⟨⟨word, b⟩, hword, heq⟩
    cases heq
    rwa [String.ofList_toList]
  · exact fun h => ⟨_, h, Prod.ext String.toList_ofList rfl⟩

theorem take_of_starts (h : word.toList <+: text) : text.take word.length = word.toList := by
  rw [← String.length_toList]
  exact (List.prefix_iff_eq_take.1 h).symm

/-- A text that starts with no word of the table. -/
theorem Walk.found_eq_none {n : Nat} {found : Option α} (h : Walk (charTable table) text n found)
    (hlongest : longest? table text = none) : found = none := by
  refine Option.eq_none_iff_forall_ne_some.2 fun b hb => ?_
  have hentry := mem_charTable.1 (h.mem b hb)
  refine not_prefix_of_longest? hlongest hentry ?_
  rw [String.toList_ofList]
  exact List.take_prefix n text

/-- The walk ends with the longest word, or else it finds nothing and the word ends inside a name. -/
theorem Walk.longest {n : Nat} {found : Option α} (h : Walk (charTable table) text n found)
    (htable : WellSpaced (table.map Prod.fst)) (hlongest : longest? table text = some (word, a)) :
    n = word.length ∧ found = some a ∨ found = none ∧ runsOn word text := by
  obtain ⟨hword, hstarts⟩ := mem_of_longest? hlongest
  have hentry : (word.toList, a) ∈ charTable table := List.mem_map.2 ⟨_, hword, rfl⟩
  have hle := h.farthest _ hentry word.toList hstarts (List.prefix_refl _)
  rw [String.length_toList] at hle
  rcases Nat.eq_or_lt_of_le hle with rfl | hlt
  · have htake := take_of_starts hstarts
    cases hfound : found with
    | none => exact absurd (htake ▸ hentry) (h.missing hfound a)
    | some b =>
      have hb := mem_charTable.1 (h.mem b hfound)
      rw [htake, String.ofList_toList] at hb
      have hsame := List.inj_on_of_nodup_map htable.nodup hb hword rfl
      exact .inl ⟨rfl, congrArg some (congrArg Prod.snd hsame)⟩
  · -- The walk went past the word, so it ended inside a longer one.
    obtain ⟨⟨chars, b⟩, hlonger, hagrees⟩ := h.agrees.resolve_left (by omega)
    have hlonger := mem_charTable.1 hlonger
    rw [← String.toList_ofList (l := chars)] at hagrees
    have hpast : word.toList.length < (text.take n).length := by
      rwa [List.length_take_of_le h.le_length, String.length_toList]
    have hprefix := (List.prefix_of_prefix_length_le hstarts (List.take_prefix n text)
      (Nat.le_of_lt hpast)).trans hagrees
    have hne : word ≠ String.ofList chars := by
      intro heq
      rw [heq] at hpast
      exact absurd hagrees.length_le (Nat.not_le_of_lt hpast)
    have hinside := htable.inside _ (List.mem_map_of_mem hword) _ (List.mem_map_of_mem hlonger) hprefix hne
    refine .inr ⟨Option.eq_none_iff_forall_ne_some.2 fun d hd => ?_,
      runsOn_of_agrees hlt h.le_length hagrees hinside⟩
    have hlast := le_of_longest? hlongest (mem_charTable.1 (h.mem d hd)) (by
      rw [String.toList_ofList]
      exact List.take_prefix n text)
    rw [String.length_ofList, List.length_take_of_le h.le_length] at hlast
    omega

theorem findsLongest_of_wellSpaced (htable : WellSpaced (table.map Prod.fst)) : FindsLongest table := by
  intro ctx c
  have hwalk := walk_walkTable (charTable table) c.rest
  simp only [keyword?]
  rw [← charTable.eq_1]
  cases hlongest : longest? table c.rest with
  | none => rw [hwalk.found_eq_none hlongest]
  | some entry =>
    obtain ⟨word, a⟩ := entry
    rcases hwalk.longest htable hlongest with ⟨hn, hfound⟩ | ⟨hfound, hruns⟩
    · have htake := take_of_starts (mem_of_longest? hlongest).2
      have hnext : Cursor.nextIs Text.isNameChar (c.skip word.length) =
          c.rest[word.length]?.any Text.isNameChar := by
        rw [Cursor.nextIs, Cursor.peek?, Cursor.skip, List.head?_drop]
      simp only [hn, hfound, htake, String.ofList_toList, hnext]
      rfl
    · rw [hfound]
      simp only [hruns, if_true]

/-! ### The tables of the language -/

theorem wellSpaced_keywords : WellSpaced (keywords.map Prod.fst) := ⟨by decide +kernel, by decide +kernel⟩

theorem wellSpaced_creatables : WellSpaced (creatables.map Prod.fst) := ⟨by decide +kernel, by decide +kernel⟩

theorem wellSpaced_uiNames : WellSpaced (uiNames.map Prod.fst) := ⟨by decide +kernel, by decide +kernel⟩

theorem wellSpaced_cameraNames : WellSpaced (cameraNames.map Prod.fst) := ⟨by decide +kernel, by decide +kernel⟩

/-- A word of the table alone is refused, or read as the command that it starts. -/
theorem keyword_ne_callAlias : ∀ word ∈ keywords.map Prod.fst, ∀ name, parse word ≠ .ok (.callAlias name) := by
  have hall : (keywords.map Prod.fst).all fun word =>
      match parse word with
      | .ok (.callAlias _) => false
      | _ => true := by decide +kernel
  intro word hword name hparse
  have hother := List.all_eq_true.1 hall word hword
  simp only [hparse] at hother
  cases hother

theorem parse_eq_callAlias_iff {name : String} (hname : IsName name) :
    parse name = .ok (.callAlias name) ↔ name ∉ keywords.map Prod.fst := by
  refine ⟨fun h hkeyword => keyword_ne_callAlias name hkeyword name h, fun hkeyword => ?_⟩
  have hreads : Reads (Parser.statement (.ofDepth (name.length + 1))) name.toList (.callAlias name) [] :=
    reads_callAlias hname hkeyword .nil
  exact parse_of_reads hname.uncommented rfl hreads

/-- In each table of the language the walk finds the longest word that the line goes on with, unless it ends inside a name. So a name alone is the call of an alias exactly if it is no keyword. -/
theorem finds_longest_word : FindsLongest keywords ∧ FindsLongest creatables ∧ FindsLongest uiNames ∧
    FindsLongest cameraNames ∧ ∀ name, IsName name →
      (parse name = .ok (.callAlias name) ↔ name ∉ keywords.map Prod.fst) :=
  ⟨findsLongest_of_wellSpaced wellSpaced_keywords, findsLongest_of_wellSpaced wellSpaced_creatables,
    findsLongest_of_wellSpaced wellSpaced_uiNames, findsLongest_of_wellSpaced wellSpaced_cameraNames,
    fun _ => parse_eq_callAlias_iff⟩

/-- The walk along the keywords goes past `get` here, into `getslot`, and what is left is a name. -/
theorem finds_longest_word_gets : IsName "gets" ∧ parse "gets" = .ok (.callAlias "gets") := by
  have hname : IsName "gets" := .of_all (by decide) rfl
  exact ⟨hname, (finds_longest_word.2.2.2.2 "gets" hname).2 (by decide)⟩

end TwinShell.Language
