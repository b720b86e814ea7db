import Mathlib.Data.List.SplitBy
import TwinShell.Session.Script

/-!
# How the lines of a script make up statements

The lines of a script fall into groups: a line that ends with a backslash is in one group with the next line, any other line is the last of its group. A group is open if its last line is continued, which only the last group of a text can be. Reading a script goes through the lines once, with the parts of the group that is being read in a buffer; what is still in the buffer at the end is dropped. So a reading is what the closed groups amount to, and a script loses a statement exactly if its last group is open and amounts to something.
-/

namespace TwinShell.Script

abbrev NumberedLine : Type := String × Nat

/-- Whether a line ends with a backslash, apart from its comment and blanks. -/
def isContinued (line : NumberedLine) : Bool := (continued? (codeOf line.1)).isSome

/-- What a line contributes to its statement. -/
def partOf (line : NumberedLine) : String :=
  Text.trim ((continued? (codeOf line.1)).getD (codeOf line.1))

/-- Numbered lines in groups, each one continued up to its last line. -/
def grouped (lines : List NumberedLine) : List (List NumberedLine) :=
  lines.splitBy fun line _ => isContinued line

/-- The lines of a text in groups. -/
def groups (text : String) : List (List NumberedLine) := grouped ((Text.lines text).zipIdx 1)

/-- Whether the last line of a group is not continued. -/
def isClosed (group : List NumberedLine) : Bool := group.getLast?.all fun line => !isContinued line

/-- The number of the first line of a group. -/
def firstNumber (group : List NumberedLine) : Nat := (group.head?.map (·.2)).getD 0

def joinedText (group : List NumberedLine) : String := joinParts (group.map partOf)

def isBlankText (text : String) : Bool := text.toList.all Text.isBlank

/-- The texts of groups with the numbers of their first lines, blank ones left out. -/
def headings (groups : List (List NumberedLine)) : List (Nat × String) :=
  (groups.map fun group => (firstNumber group, joinedText group)).filter fun heading => !isBlankText heading.2

/-- The statement that a text is read as, if it does something. -/
def statementOf? (heading : Nat × String) : Option (Statement Node) :=
  match Language.parse heading.2 with
  | .ok .nop => none
  | .ok node => some ⟨heading.1, heading.2, node⟩
  | .error _ => none

/-- The error of a text that cannot be read. -/
def errorOf? (heading : Nat × String) : Option (Statement Language.SyntaxError) :=
  match Language.parse heading.2 with
  | .ok _ => none
  | .error e => some ⟨heading.1, heading.2, e⟩

/-- What groups of lines amount to, in their order: each one that is not blank is read, and gives its statement, its error or nothing. -/
def readingOf (groups : List (List NumberedLine)) : Reading :=
  ⟨(headings groups).filterMap statementOf?, (headings groups).filterMap errorOf?⟩

/-! ### Blank statements -/

theorem exists_not_blank_of_trim_ne {text : String} (h : Text.trim text ≠ "") :
    ∃ c ∈ (Text.trim text).toList, Text.isBlank c = false := by
  have hlast := List.head?_dropWhile_not Text.isBlank (text.toList.dropWhile Text.isBlank).reverse
  have htrim : (Text.trim text).toList =
      ((text.toList.dropWhile Text.isBlank).reverse.dropWhile Text.isBlank).reverse :=
    String.toList_ofList
  cases hkept : (text.toList.dropWhile Text.isBlank).reverse.dropWhile Text.isBlank with
  | nil =>
    rw [hkept] at htrim
    exact absurd (String.toList_inj.1 htrim) h
  | cons c rest =>
    simp only [hkept, List.head?_cons] at hlast
    refine ⟨c, ?_, hlast⟩
    rw [htrim, hkept]
    exact List.mem_reverse.2 List.mem_cons_self

/-- Parts are trimmed, so a text joined from them is empty as soon as it is blank. -/
theorem isBlankText_joinedText (group : List NumberedLine) :
    isBlankText (joinedText group) = decide (joinedText group = "") := by
  rw [Bool.eq_iff_iff, decide_eq_true_iff]
  refine ⟨fun hblank => ?_, fun hempty => by rw [hempty]; rfl⟩
  cases hparts : (group.map partOf).filter (· ≠ "") with
  | nil => rw [joinedText, joinParts, hparts]; rfl
  | cons part rest =>
    exfalso
    have hpart : part ∈ (group.map partOf).filter (· ≠ "") := hparts ▸ List.mem_cons_self
    obtain ⟨hmem, hne⟩ := List.mem_filter.1 hpart
    obtain ⟨line, -, rfl⟩ := List.mem_map.1 hmem
    obtain ⟨c, hc, hnot⟩ := exists_not_blank_of_trim_ne (of_decide_eq_true hne)
    have hjoined : c ∈ (joinedText group).toList := by
      rw [joinedText, joinParts, hparts]
      by_cases hrest : rest = []
      · rw [hrest, String.intercalate_singleton]
        exact hc
      · rw [String.intercalate_cons_of_ne_nil hrest, String.append_assoc, String.toList_append]
        exact List.mem_append_left _ hc
    exact Bool.false_ne_true (hnot.symm.trans (List.all_eq_true.1 hblank c hjoined))

theorem headings_cons (group : List NumberedLine) (groups : List (List NumberedLine)) :
    headings (group :: groups) = if joinedText group = "" then headings groups
      else (firstNumber group, joinedText group) :: headings groups := by
  rw [headings, List.map_cons, List.filter_cons, isBlankText_joinedText]
  by_cases hempty : joinedText group = ""
  · simp [hempty, headings]
  · simp [hempty, headings]

/-! ### The loop over the lines -/

/-- Lines that are all continued are one open group. -/
theorem filter_isClosed_pending {pending : List NumberedLine}
    (hpending : ∀ line ∈ pending, isContinued line) : (grouped pending).filter isClosed = [] := by
  by_cases hne : pending = []
  · rw [hne]
    rfl
  · have hchain : pending.IsChain fun line _ => isContinued line = true :=
      (List.pairwise_of_forall_mem_list fun line hline _ _ => hpending line hline).isChain
    have hopen : isClosed pending = false := by
      have hlast := hpending _ (List.getLast_mem hne)
      simp [isClosed, List.getLast?_eq_some_getLast hne, hlast]
    rw [grouped, List.splitBy_of_isChain hne hchain]
    simp [hopen]

/-- A line that is not continued closes the group before it. -/
theorem grouped_close {pending rest : List NumberedLine} {line : NumberedLine}
    (hpending : ∀ line ∈ pending, isContinued line) (hline : isContinued line = false) :
    grouped (pending ++ line :: rest) = (pending ++ [line]) :: grouped rest := by
  have hchain : (pending ++ [line]).IsChain fun line _ => isContinued line = true := by
    rw [List.isChain_append]
    refine ⟨?_, .singleton _, fun last hlast _ _ => hpending last (List.mem_of_mem_getLast? hlast)⟩
    exact (List.pairwise_of_forall_mem_list fun line hline _ _ => hpending line hline).isChain
  rw [grouped, List.append_cons, List.splitBy_append, List.splitBy_of_isChain (by simp) hchain]
  · rfl
  · simp [hline]

/-- The buffer of the loop holds the parts of the group that is being read. -/
theorem group_eq_headings (lines : List String) (number start : Nat) (pending : List NumberedLine)
    (hpending : ∀ line ∈ pending, isContinued line)
    (hstart : pending ≠ [] → start = firstNumber pending) :
    group number start (pending.map partOf).reverse lines =
      headings ((grouped (pending ++ lines.zipIdx number)).filter isClosed) := by
  induction lines generalizing number start pending with
  | nil =>
    rw [List.zipIdx_nil, List.append_nil, filter_isClosed_pending hpending]
    rfl
  | cons line rest ih =>
    have hfirst : (if (pending.map partOf).reverse.isEmpty then number else start) =
        firstNumber (pending ++ [(line, number)]) := by
      cases pending with
      | nil => rfl
      | cons first more => simpa [firstNumber] using hstart
    -- The equation for a line alone takes Lean much longer to find than the one for all lists.
    rw [group.eq_def, List.zipIdx_cons]
    dsimp only
    rw [hfirst]
    split
    · rename_i part hpart
      have hline : isContinued (line, number) = true := by rw [isContinued, hpart]; rfl
      have hparts : Text.trim part :: (pending.map partOf).reverse =
          ((pending ++ [(line, number)]).map partOf).reverse := by
        simp [partOf, hpart]
      rw [hparts, List.append_cons pending (line, number) (rest.zipIdx (number + 1))]
      refine ih (number + 1) _ _ ?_ fun _ => rfl
      simpa [or_imp, forall_and, hline] using hpending
    · rename_i hnone
      have hline : isContinued (line, number) = false := by rw [isContinued, hnone]; rfl
      have hjoined : joinParts (Text.trim (codeOf line) :: (pending.map partOf).reverse).reverse =
          joinedText (pending ++ [(line, number)]) := by
        simp [joinedText, partOf, hnone]
      have hclosed : isClosed (pending ++ [(line, number)]) = true := by simp [isClosed, hline]
      have hrest : group (number + 1) (firstNumber (pending ++ [(line, number)])) [] rest =
          headings ((grouped (rest.zipIdx (number + 1))).filter isClosed) :=
        ih (number + 1) _ [] nofun (absurd rfl)
      rw [grouped_close hpending hline, hjoined, hrest, List.filter_cons_of_pos hclosed, headings_cons]

theorem Reading.add_eq (heading : Nat × String) (r : Reading) :
    add heading r = ⟨(statementOf? heading).toList ++ r.statements,
      (errorOf? heading).toList ++ r.errors⟩ := by
  unfold add statementOf? errorOf?
  cases Language.parse heading.2 with
  | error e => rfl
  | ok node => cases node <;> rfl

theorem foldr_add (l : List (Nat × String)) :
    l.foldr Reading.add {} = ⟨l.filterMap statementOf?, l.filterMap errorOf?⟩ := by
  induction l with
  | nil => rfl
  | cons heading l ih =>
    rw [List.foldr_cons, ih, Reading.add_eq, List.filterMap_cons, List.filterMap_cons]
    cases statementOf? heading <;> cases errorOf? heading <;> rfl

theorem read_eq_readingOf (text : String) : read text = readingOf ((groups text).filter isClosed) := by
  have hstatements : statements text = headings ((groups text).filter isClosed) :=
    group_eq_headings (Text.lines text) 1 1 [] nofun (absurd rfl)
  rw [read, hstatements, foldr_add, readingOf]

/-! ### Line numbers -/

theorem firstNumber_mem {group : List NumberedLine} (hne : group ≠ []) :
    ∃ line ∈ group, line.2 = firstNumber group := by
  cases group with
  | nil => exact absurd rfl hne
  | cons first more => exact ⟨first, List.mem_cons_self, rfl⟩

theorem pairwise_firstNumber (text : String) :
    (groups text).Pairwise fun a b => firstNumber a < firstNumber b := by
  have hlines : ((Text.lines text).zipIdx 1).Pairwise fun a b => a.2 < b.2 := by
    rw [← List.pairwise_map (f := Prod.snd), List.zipIdx_map_snd]
    exact List.pairwise_lt_range' 1
  rw [← List.flatten_splitBy (fun line _ => isContinued line) ((Text.lines text).zipIdx 1),
    List.pairwise_flatten] at hlines
  refine hlines.2.imp_of_mem fun {a b} ha hb hlt => ?_
  obtain ⟨first, hfirst, hnumber⟩ := firstNumber_mem (List.ne_nil_of_mem_splitBy ha)
  obtain ⟨second, hsecond, hnumber'⟩ := firstNumber_mem (List.ne_nil_of_mem_splitBy hb)
  rw [← hnumber, ← hnumber']
  exact hlt first hfirst second hsecond

theorem pairwise_headings (text : String) :
    (headings ((groups text).filter isClosed)).Pairwise fun a b => a.1 < b.1 := by
  refine List.Pairwise.filter _ (List.pairwise_map.2 ?_)
  exact (pairwise_firstNumber text).filter _

theorem pairwise_line_of_headings {α : Type} {f : Nat × String → Option (Statement α)}
    (hf : ∀ heading statement, f heading = some statement → statement.line = heading.1) {l : List (Nat × String)}
    (hl : l.Pairwise fun a b => a.1 < b.1) : ((l.filterMap f).map (·.line)).Pairwise (· < ·) := by
  rw [List.pairwise_map, List.pairwise_filterMap]
  refine hl.imp fun {a b} hlt s hs t ht => ?_
  rw [hf a s hs, hf b t ht]
  exact hlt

theorem line_of_statementOf? (heading : Nat × String) (statement : Statement Node)
    (h : statementOf? heading = some statement) : statement.line = heading.1 := by
  unfold statementOf? at h
  split at h
  · cases h
  · cases h
    rfl
  · cases h

theorem line_of_errorOf? (heading : Nat × String) (statement : Statement Language.SyntaxError)
    (h : errorOf? heading = some statement) : statement.line = heading.1 := by
  unfold errorOf? at h
  split at h
  · cases h
  · cases h
    rfl

/-! ### What is lost -/

theorem exists_rel_of_mem_dropLast {α : Type} {R : α → α → Prop} {l : List α} (hl : l.IsChain R) {a : α}
    (ha : a ∈ l.dropLast) : ∃ b, R a b := by
  induction hl with
  | nil => cases ha
  | singleton => cases ha
  | cons_cons hab _ ih =>
    rcases List.mem_cons.1 ha with rfl | ha
    · exact ⟨_, hab⟩
    · exact ih ha

/-- A group that another one follows is closed. -/
theorem isClosed_of_mem_dropLast {lines group : List NumberedLine}
    (h : group ∈ (grouped lines).dropLast) : isClosed group := by
  obtain ⟨next, hne, -, hlast⟩ := exists_rel_of_mem_dropLast
    (List.isChain_getLast_head_splitBy (fun line _ => isContinued line) lines) h
  simp [isClosed, List.getLast?_eq_some_getLast hne, hlast]

theorem readingOf_append (xs ys : List (List NumberedLine)) :
    readingOf (xs ++ ys) = ⟨(readingOf xs).statements ++ (readingOf ys).statements,
      (readingOf xs).errors ++ (readingOf ys).errors⟩ := by
  simp [readingOf, headings]

/-- Leaving out the open groups shows unless they amount to nothing. -/
theorem readingOf_closed_eq_iff (lines : List NumberedLine) :
    readingOf ((grouped lines).filter isClosed) = readingOf (grouped lines) ↔
      ∀ group ∈ grouped lines, isClosed group ∨ readingOf [group] = {} := by
  have hinit : ∀ group ∈ (grouped lines).dropLast, isClosed group := fun _ => isClosed_of_mem_dropLast
  rcases List.eq_nil_or_concat (grouped lines) with hnil | ⟨init, last, hconcat⟩
  · simp [hnil]
  · rw [List.concat_eq_append] at hconcat
    rw [hconcat, List.dropLast_concat] at hinit
    have hfilter : init.filter isClosed = init := List.filter_eq_self.2 hinit
    have hlasts : (∀ group ∈ init ++ [last], isClosed group ∨ readingOf [group] = {}) ↔
        isClosed last ∨ readingOf [last] = {} := by
      simp only [List.forall_mem_append, List.forall_mem_singleton, and_iff_right_iff_imp]
      exact fun _ group hgroup => .inl (hinit group hgroup)
    rw [hconcat, List.filter_append, hfilter, hlasts]
    by_cases hlast : isClosed last
    · simp [hlast]
    · rw [List.filter_cons_of_neg hlast, List.filter_nil, List.append_nil, readingOf_append]
      simp [hlast, Reading.mk.injEq, readingOf]

/-- Reading a script gives what its closed groups amount to, in the order of their lines. Only the last group can be open, and it is lost exactly if it amounts to something. -/
theorem read_eq_readingOf_closed (text : String) :
    read text = readingOf ((groups text).filter isClosed) ∧
    ((read text).statements.map (·.line)).Pairwise (· < ·) ∧
    ((read text).errors.map (·.line)).Pairwise (· < ·) ∧
    (∀ group ∈ (groups text).dropLast, isClosed group) ∧
    (read text = readingOf (groups text) ↔
      ∀ group ∈ groups text, isClosed group ∨ readingOf [group] = {}) := by
  have hread := read_eq_readingOf text
  have hnumbers := pairwise_headings text
  refine ⟨hread, ?_, ?_, fun _ => isClosed_of_mem_dropLast, ?_⟩
  · rw [hread]
    exact pairwise_line_of_headings line_of_statementOf? hnumbers
  · rw [hread]
    exact pairwise_line_of_headings line_of_errorOf? hnumbers
  · rw [hread]
    exact readingOf_closed_eq_iff _

/-- A backslash on the last line of a text leaves its group open, and what stands before it is lost. -/
theorem read_ne_readingOf_groups : read "pwd\\" ≠ readingOf (groups "pwd\\") := by
  have hread : (read "pwd\\").statements.length = 0 := by rfl
  have hexpected : (readingOf (groups "pwd\\")).statements.length = 1 := by rfl
  intro h
  rw [h, hexpected] at hread
  cases hread

end TwinShell.Script
