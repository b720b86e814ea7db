import TwinShell.Proofs.Language.Expressions

/-!
# Words that start a statement

A statement starts with a word of the table, which selects the rule for what follows, or is the name of an alias. The table is walked along the line as far as any word of it goes, so a name that starts like a word of the table has to be told apart from it: the walk ends inside the name, and then the next character still belongs to the name.
-/

namespace TwinShell.Language

open TwinShell.Language.Parser (statement afterKeyword keyword? walkTable)

variable {g : Grammar} {text rest : List Char} {node : Node}

/-- Where a statement can end. -/
inductive Stops : List Char → Prop where
  | nil : Stops []
  | cons {c : Char} (rest : List Char) (hc : c ∈ [';', '\x7d', ')']) : Stops (c :: rest)

namespace Stops

theorem avoids {p : Char → Bool} (h : Stops rest) (hp : [';', '\x7d', ')'].all (!p ·)) :
    headAvoids p rest := by
  cases h with
  | nil => rfl
  | cons rest hc => simpa [headAvoids] using List.all_eq_true.1 hp _ hc

theorem avoids_space (h : Stops rest) : headAvoids Text.isSpaceOrTab rest := h.avoids (by decide)

theorem avoids_nameChar (h : Stops rest) : headAvoids Text.isNameChar rest := h.avoids (by decide)

theorem follow (h : Stops rest) : Follow 1 rest := by
  cases h with
  | nil => exact .nil
  | cons rest hc =>
    refine .closer rest ?_
    simp only [List.mem_cons, List.not_mem_nil, or_false] at hc ⊢
    rcases hc with rfl | rfl | rfl <;> decide

theorem commandEnds (h : Stops rest) : Reads Parser.commandEnds [] true rest := by
  have hends := Reads.commandEnds h.avoids_space
  have hstops : (rest.isEmpty || rest.head?.any Parser.isCommandStop) = true := by
    cases h with
    | nil => rfl
    | cons rest hc =>
      simp only [List.mem_cons, List.not_mem_nil, or_false] at hc
      rcases hc with rfl | rfl | rfl <;> rfl
  rwa [hstops] at hends

end Stops

/-! ### Words that start a statement -/

/-- The words of the table, as lists of characters. -/
def keywordTable : List (List Char × Keyword) := keywords.map fun (word, k) => (word.toList, k)

/-- Where a word that ends like a name can end. -/
def SetOff (rest : List Char) : Prop := ∀ c ∈ rest.head?, c ∈ [' ', ';', '\x7d', ')']

theorem Stops.setOff (h : Stops rest) : SetOff rest := by
  cases h with
  | nil => exact nofun
  | cons rest hc =>
    rintro _ ⟨⟩
    exact List.mem_cons_of_mem _ hc

theorem SetOff.avoids_nameChar (h : SetOff rest) : headAvoids Text.isNameChar rest := by
  cases rest with
  | nil => rfl
  | cons c cs =>
    have hc := h c rfl
    simp only [List.mem_cons, List.not_mem_nil, or_false] at hc
    rcases hc with rfl | rfl | rfl | rfl <;> rfl

theorem SetOff.isSetOff (h : SetOff rest) (pos : Nat) : Parser.isSetOff ⟨pos, rest⟩ = true := by
  cases rest with
  | nil => rfl
  | cons c cs =>
    have hc := h c rfl
    simp only [List.mem_cons, List.not_mem_nil, or_false] at hc
    rcases hc with rfl | rfl | rfl | rfl <;> rfl

/-- A word of a table that no name goes on with. -/
theorem reads_tableWord {α : Type} {table : List (String × α)} {word : String} {a : α}
    (hwalk : walkTable (table.map fun (word, a) => (word.toList, a)) (word.toList ++ rest) =
      (word.toList.length, some a))
    (hends : Parser.endsLikeName word → headAvoids Text.isNameChar rest) :
    Reads (keyword? table) word.toList (some (word, a)) rest := by
  intro ctx pos
  have hrun : (Parser.endsLikeName word && Cursor.nextIs Text.isNameChar ⟨pos + word.toList.length,
      rest⟩) = false := by
    cases hname : Parser.endsLikeName word with
    | false => rfl
    | true => simpa [headAvoids, Cursor.nextIs, Cursor.peek?] using hends hname
  rw [Parser.endsLikeName] at hrun
  simp only [keyword?, hwalk, Cursor.skip_append, List.take_left, hrun, String.ofList_toList,
    Bool.false_eq_true, if_false]

theorem reads_keyword {word : String} {k : Keyword}
    (hwalk : walkTable keywordTable (word.toList ++ rest) = (word.toList.length, some k))
    (hoff : Parser.endsLikeName word → SetOff rest) :
    Reads (keyword? keywords) word.toList (some (word, k)) rest :=
  reads_tableWord hwalk fun hends => (hoff hends).avoids_nameChar

theorem reads_notEnds {cs : List Char} (hne : cs ≠ [])
    (hfirst : headAvoids (fun c => Text.isSpaceOrTab c || Parser.isCommandStop c) cs) :
    Reads Parser.commandEnds [] false cs := by
  have hspace : headAvoids Text.isSpaceOrTab cs := headAvoids_of_imp (by simp +contextual) hfirst
  have hstop : headAvoids Parser.isCommandStop cs := headAvoids_of_imp (by simp +contextual) hfirst
  have hends := Reads.commandEnds hspace
  rwa [show (cs.isEmpty || cs.head?.any Parser.isCommandStop) = false by
    simpa [headAvoids, hne] using hstop] at hends

/-- A word of the table, and what the rule behind it reads. -/
theorem reads_command {word : String} {k : Keyword} (hne : word.toList ≠ [])
    (hfirst : headAvoids (fun c => Text.isSpaceOrTab c || Parser.isCommandStop c)
      (word.toList ++ (text ++ rest)))
    (hwalk : walkTable keywordTable (word.toList ++ (text ++ rest)) = (word.toList.length, some k))
    (hoff : Parser.endsLikeName word → SetOff (text ++ rest))
    (h : Reads (afterKeyword g k) text node rest) :
    Reads (statement g) (word.toList ++ text) node rest := by
  refine Reads.traced "command" ?_
  rw [← List.append_assoc] at hfirst
  refine Reads.bindNil (reads_notEnds (by simp [hne]) hfirst) (Reads.cursor fun start => ?_)
  refine (reads_keyword hwalk hoff).bind ?_
  refine Reads.bindNil (a := false) (Reads.look fun pos => ?_) (h.traced word)
  cases hends : Parser.endsLikeName word with
  | false => rfl
  | true => simp [(hoff hends).isSetOff]

/-- What is found is a word of the table that the line starts with. -/
theorem mem_of_walkTable {α : Type} {table : List (List Char × α)} {cs : List Char} {n : Nat} {a : α}
    (h : walkTable table cs = (n, some a)) : n ≤ cs.length ∧ (cs.take n, a) ∈ table := by
  have hend : ∀ {table : List (List Char × α)} {a}, (table.find? (·.1.isEmpty)).map (·.2) = some a →
      ([], a) ∈ table := by
    intro table a hfind
    obtain ⟨⟨word, b⟩, hword, rfl⟩ := Option.map_eq_some_iff.1 hfind
    have hempty : word = [] := by simpa using List.find?_some hword
    exact hempty ▸ List.mem_of_find?_eq_some hword
  induction cs generalizing table n with
  | nil =>
    rw [walkTable, Prod.mk.injEq] at h
    obtain ⟨rfl, hfind⟩ := h
    exact ⟨Nat.le_refl 0, hend hfind⟩
  | cons c cs ih =>
    rw [walkTable] at h
    split at h
    · rw [Prod.mk.injEq] at h
      obtain ⟨rfl, hfind⟩ := h
      exact ⟨Nat.zero_le _, hend hfind⟩
    · simp only [Prod.mk.injEq] at h
      obtain ⟨rfl, hfound⟩ := h
      obtain ⟨hlength, hmem⟩ := ih (Prod.ext rfl hfound)
      refine ⟨Nat.succ_le_succ hlength, ?_⟩
      obtain ⟨⟨word, b⟩, hword, hfurther⟩ := List.mem_filterMap.1 hmem
      cases word with
      | nil => cases hfurther
      | cons d ds =>
        dsimp only at hfurther
        split at hfurther
        · rename_i hd
          subst hd
          cases hfurther
          exact hword
        · cases hfurther

/-- Every word of the table has a character, and none that ends a statement. -/
theorem keywordTable_words : ∀ entry ∈ keywordTable,
    entry.1 ≠ [] ∧ ∀ c ∈ entry.1, Parser.isCommandStop c = false := by
  have hall : keywordTable.all fun entry =>
      !entry.1.isEmpty && entry.1.all (!Parser.isCommandStop ·) := by decide
  intro entry hentry
  simpa using List.all_eq_true.1 hall entry hentry

theorem Stops.isCommandStop {c : Char} {cs : List Char} (h : Stops (c :: cs)) :
    Parser.isCommandStop c = true := by
  cases h with
  | cons rest hc =>
    simp only [List.mem_cons, List.not_mem_nil, or_false] at hc
    rcases hc with rfl | rfl | rfl <;> rfl

/-- A name that is no word of the table and starts like one runs on behind it. -/
theorem walkTable_lt_name {name : String} {n : Nat} {k : Keyword}
    (hkeyword : name ∉ keywords.map Prod.fst) (hrest : Stops rest)
    (h : walkTable keywordTable (name.toList ++ rest) = (n, some k)) :
    0 < n ∧ n < name.toList.length := by
  obtain ⟨hlength, hmem⟩ := mem_of_walkTable h
  obtain ⟨hne, hstops⟩ := keywordTable_words _ hmem
  refine ⟨Nat.pos_of_ne_zero fun hn => hne (by simp [hn]), Nat.lt_of_not_le fun hle => ?_⟩
  rw [List.take_append, List.take_of_length_le hle] at hmem hstops
  cases hextra : rest.take (n - name.toList.length) with
  | nil =>
    rw [hextra, List.append_nil] at hmem
    obtain ⟨⟨word, k'⟩, hword, heq⟩ := List.mem_map.1 hmem
    have hname : word = name := String.toList_inj.1 (congrArg Prod.fst heq)
    exact hkeyword (List.mem_map.2 ⟨(word, k'), hword, hname⟩)
  | cons c cs =>
    obtain ⟨d, ds, rfl⟩ : ∃ d ds, rest = d :: ds :=
      List.exists_cons_of_ne_nil fun hnil => by simp [hnil] at hextra
    have hc : c = d := by
      cases hn : n - name.toList.length with
      | zero => simp [hn] at hextra
      | succ m =>
        rw [hn, List.take_succ_cons] at hextra
        exact (List.cons.inj hextra).1.symm
    have hstop := hstops c (by simp [hextra])
    rw [hc, hrest.isCommandStop] at hstop
    cases hstop

theorem reads_keyword_none {name : String} (hname : IsName name)
    (hkeyword : name ∉ keywords.map Prod.fst) (hrest : Stops rest) :
    Reads (keyword? keywords) [] none (name.toList ++ rest) := by
  intro ctx pos
  simp only [keyword?, show keywords.map (fun (word, k) => (word.toList, k)) = keywordTable from rfl,
    List.nil_append, List.length_nil, Nat.add_zero]
  split
  · rfl
  · rename_i k hfound
    obtain ⟨n, hn⟩ : ∃ n, walkTable keywordTable (name.toList ++ rest) = (n, some k) :=
      ⟨_, Prod.ext rfl hfound⟩
    obtain ⟨hpos, hlt⟩ := walkTable_lt_name hkeyword hrest hn
    have htake : (name.toList ++ rest).take n = name.toList.take n :=
      List.take_append_of_le_length (Nat.le_of_lt hlt)
    have hlast : (name.toList.take n).getLast?.any Text.isNameChar = true := by
      have hne : name.toList.take n ≠ [] := by
        refine List.ne_nil_of_length_pos ?_
        rw [List.length_take]
        omega
      rw [List.getLast?_eq_some_getLast hne, Option.any_some]
      exact hname.all_nameChar _ (List.mem_of_mem_take (List.getLast_mem hne))
    have hnext : Cursor.nextIs Text.isNameChar (Cursor.skip ⟨pos, name.toList ++ rest⟩ n) = true := by
      have hdrop : (name.toList ++ rest).drop n =
          name.toList[n] :: (name.toList.drop (n + 1) ++ rest) := by
        rw [List.drop_append_of_le_length (Nat.le_of_lt hlt), List.drop_eq_getElem_cons hlt,
          List.cons_append]
      simp only [Cursor.nextIs, Cursor.peek?, Cursor.skip, hdrop, List.head?_cons, Option.any_some]
      exact hname.all_nameChar _ (List.getElem_mem hlt)
    rw [hn]
    simp only [htake, hlast, hnext, Bool.and_self, if_true]

/-- A name with blanks around it. -/
theorem reads_simpleWord (before after : List Char) {name : String} (hname : IsName name)
    (hbefore : ∀ c ∈ before, Text.isSpaceOrTab c) (hafter : ∀ c ∈ after, Text.isSpaceOrTab c)
    (hlast : headAvoids Text.isNameChar (after ++ rest))
    (hblank : headAvoids Text.isSpaceOrTab rest) :
    Reads Parser.simpleWord (before ++ (name.toList ++ after)) name rest := by
  refine Reads.wordOf (fun c hc => ?_) hbefore hafter hname.ne_empty hname.all_nameChar hlast hblank
  rw [Bool.eq_false_iff]
  intro hletter
  rw [not_space_of_isNameChar hletter] at hc
  cases hc

theorem reads_callAlias {name : String} (hname : IsName name)
    (hkeyword : name ∉ keywords.map Prod.fst) (hrest : Stops rest) :
    Reads (statement g) name.toList (.callAlias name) rest := by
  have hne : name.toList ≠ [] := fun h => hname.ne_empty (String.toList_inj.1 h)
  have hfirst : headAvoids (fun c => Text.isSpaceOrTab c || Parser.isCommandStop c)
      (name.toList ++ rest) := by
    obtain ⟨c, cs, hcs⟩ := List.exists_cons_of_ne_nil hne
    have hc := hname.all_nameChar c (by simp [hcs])
    have hstop : Parser.isCommandStop c = false := by
      rw [Bool.eq_false_iff]
      intro hstop
      simp only [Parser.isCommandStop, Bool.or_eq_true, beq_iff_eq] at hstop
      rcases hstop with (rfl | rfl) | rfl <;> exact absurd hc (by decide)
    simp [hcs, headAvoids, hstop, not_space_of_isNameChar hc]
  have hword := reads_simpleWord [] [] hname (by simp) (by simp)
    hrest.avoids_nameChar hrest.avoids_space
  rw [List.nil_append, List.append_nil] at hword
  refine Reads.traced "command" ?_
  refine Reads.bindNil (reads_notEnds (by simp [hne]) hfirst) (Reads.cursor fun start => ?_)
  refine Reads.bindNil (reads_keyword_none hname hkeyword hrest) ?_
  rw [← List.append_nil name.toList]
  refine hword.bind ?_
  rw [if_neg hname.ne_empty]
  exact Reads.bindPure hrest.commandEnds rfl

end TwinShell.Language
