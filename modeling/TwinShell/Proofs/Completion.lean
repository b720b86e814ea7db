import TwinShell.Completion
import TwinShell.Proofs.Dict
import TwinShell.Proofs.Text.ByteOrder

/-!
# Completion extends the word

The editor puts a candidate in the place of the word before the cursor. So whatever is completed, every candidate has to start with that word, also when the word was cut once more, at its last slash, to find out which directory to ask for names. What comes before a cut and what comes after it always make up what was cut, which is all there is to it: a candidate is put together from the same pieces. Asking for names may have effects; it is done once at most, and the rest of the answer is a function of the names.
-/

namespace TwinShell.Completion

/-! ### Cutting -/

/-- Some characters cut after the last one that satisfies `p`. -/
structure IsCut (p : Char → Bool) (cs head tail : List Char) : Prop where
  whole : head ++ tail = cs
  head : head = [] ∨ ∃ c ∈ head.getLast?, p c
  tail : ∀ c ∈ tail, p c = false

theorem isCut_cutAfterLast (p : Char → Bool) (cs : List Char) :
    IsCut p cs (cutAfterLast p cs).1 (cutAfterLast p cs).2 where
  whole := by
    rw [cutAfterLast, ← List.reverse_append, List.takeWhile_append_dropWhile, List.reverse_reverse]
  head := by
    rw [cutAfterLast, List.reverse_eq_nil_iff, List.getLast?_reverse]
    cases h : cs.reverse.dropWhile (!p ·) with
    | nil => exact .inl rfl
    | cons c rest =>
      refine .inr ⟨c, rfl, ?_⟩
      have hhead := List.head_dropWhile_not (p := (!p ·)) (l := cs.reverse) (by simp [h])
      simpa [h] using hhead
  tail := by
    intro c hc
    have hall := List.all_eq_true.1 List.all_takeWhile c (List.mem_reverse.1 hc)
    simpa using hall

theorem takeBytes_prefix (n : Nat) (cs : List Char) : takeBytes n cs <+: cs := by
  induction cs generalizing n with
  | nil => exact List.nil_prefix
  | cons c cs ih =>
    rw [takeBytes]
    split
    · exact (List.prefix_cons_inj c).2 (ih _)
    · exact List.nil_prefix

theorem byteCount_append (cs ds : List Char) : byteCount (cs ++ ds) = byteCount cs + byteCount ds := by
  rw [byteCount, String.ofList_append, String.utf8ByteSize_append]
  rfl

/-! ### Candidates -/

variable {stem text : String} {texts : List String}

theorem mem_startingWith : text ∈ startingWith stem texts ↔ text ∈ texts ∧ stem.toList <+: text.toList := by
  have hempty : (Dict.empty : Dict Unit).contains text = false := rfl
  rw [startingWith, Dict.mem_keys, Dict.ofList, Dict.contains_insertAll, hempty, List.map_map]
  simp [Text.startsWith]

/-- The candidates are in order, and none is given twice. -/
theorem startingWith_sorted (stem : String) (texts : List String) :
    (startingWith stem texts).Pairwise (· < ·) :=
  Dict.keys_sorted _

theorem map_append_sorted (lead : String) (h : texts.Pairwise (· < ·)) :
    (texts.map (lead ++ ·)).Pairwise (· < ·) := by
  refine List.pairwise_map.2 (h.imp fun hlt => ?_)
  rw [String.lt_iff, String.toList_append, String.toList_append]
  exact List.append_left_lt (String.lt_iff.1 hlt)

/-- What is asked for a target, and what is made of the answer. -/
def finish (scope : Scope) (names : List String) (target : Target) : List String :=
  Id.run (candidates scope (fun _ => pure names) target)

/-- The names below a path are asked for at most once. -/
theorem candidates_eq {m : Type → Type} [Monad m] [LawfulMonad m] (scope : Scope)
    (children : String → m (List String)) (target : Target) :
    candidates scope children target =
      match target.directory? with
      | none => pure (finish scope [] target)
      | some directory => (finish scope · target) <$> children directory := by
  cases target with
  | children lead directory stem => exact bind_pure_comp _ _
  | references | commands | nothing => rfl

variable {scope : Scope} {head word : List Char}

/-- A directory that is asked for is what the word means up to its last slash. -/
theorem directory?_target {directory : String} (h : directory ∈ (target scope head word).directory?) :
    ∃ lead stem, IsCut (· == '/') word lead stem ∧
      directory = Path.resolve (String.ofList lead) scope.currentPath scope.currentPath := by
  unfold target at h
  split at h
  · cases h
  · extract_lets statement at h
    split at h
    · cases h
    · split at h
      · cases h
        exact ⟨_, _, isCut_cutAfterLast _ _, rfl⟩
      · cases h

theorem prefix_of_mem_map {lead candidate : String} {names : List String}
    (h : candidate ∈ (startingWith stem names).map (lead ++ ·)) :
    lead.toList ++ stem.toList <+: candidate.toList := by
  obtain ⟨name, hname, rfl⟩ := List.mem_map.1 h
  rw [String.toList_append]
  exact (List.prefix_append_right_inj _).2 (mem_startingWith.1 hname).2

/-- Whatever is proposed for a word goes on from it. -/
theorem prefix_of_mem_finish {names : List String} {candidate : String}
    (h : candidate ∈ finish scope names (target scope head word)) : word <+: candidate.toList := by
  unfold target at h
  split at h
  · rename_i name
    simpa using prefix_of_mem_map h
  · extract_lets statement at h
    split at h
    · simpa using (mem_startingWith.1 h).2
    · split at h
      · have hlead := prefix_of_mem_map h
        rw [String.toList_ofList, String.toList_ofList] at hlead
        rw [← (isCut_cutAfterLast (· == '/') word).whole]
        exact hlead
      · cases h

theorem finish_sorted (names : List String) (target : Target) :
    (finish scope names target).Pairwise (· < ·) := by
  cases target with
  | references | children => exact map_append_sorted _ (startingWith_sorted _ _)
  | commands => exact startingWith_sorted _ _
  | nothing => exact .nil

/-! ### Completing a line -/

/-- At every cursor, completion starts at the last place before it where a word starts; every candidate goes on from what was typed since, and the candidates are in the order of their bytes, none given twice. The names below a path are asked for at most once, and then it is the path that the word means up to its last slash; the candidates are a function of the answer. -/
theorem completeWith_extends {line : String} {offset : Nat} (hoffset : isBoundary line offset)
    (scope : Scope) : ∃ before after head word : List Char,
      line.toList = before ++ after ∧ byteCount before = offset ∧ IsCut isBreak before head word ∧
      ∃ (asked : Option String) (answer : List String → Result),
        (∀ (m : Type → Type) [Monad m] [LawfulMonad m] (children : String → m (List String)),
          completeWith scope children line offset =
            match asked with
            | none => pure (answer [])
            | some directory => answer <$> children directory) ∧
        (∀ directory ∈ asked, ∃ lead stem, IsCut (· == '/') word lead stem ∧
          directory = Path.resolve (String.ofList lead) scope.currentPath scope.currentPath) ∧
        ∀ names, (answer names).start = byteCount head ∧ (answer names).start ≤ offset ∧
          (∀ candidate ∈ (answer names).candidates, word <+: candidate.toList) ∧
          (answer names).candidates.Pairwise fun a b => Text.encode a < Text.encode b := by
  obtain ⟨after, hafter⟩ := takeBytes_prefix offset line.toList
  have hcount : byteCount (takeBytes offset line.toList) = offset := by
    simpa [isBoundary] using hoffset
  have hcut := isCut_cutAfterLast isBreak (takeBytes offset line.toList)
  refine ⟨_, after, _, _, hafter.symm, hcount, hcut, (targetAt scope line offset).directory?,
    fun names => ⟨byteCount (wordAt line offset).1, finish scope names (targetAt scope line offset)⟩, ?_,
    fun directory hdirectory => directory?_target hdirectory, fun names => ⟨rfl, ?_, ?_, ?_⟩⟩
  · intro m _ _ children
    rw [completeWith, candidates_eq]
    cases (targetAt scope line offset).directory? with
    | none => exact pure_bind _ _
    | some directory => exact (bind_pure_comp _ _).trans (comp_map ..).symm
  · have hbytes := congrArg byteCount hcut.whole
    rw [byteCount_append, hcount] at hbytes
    exact Nat.le.intro hbytes
  · exact fun candidate hcandidate => prefix_of_mem_finish hcandidate
  · exact (finish_sorted names _).imp Text.encode_lt_encode_iff.2

/-- The second segment of a path is completed, behind a word with a letter of two bytes. -/
theorem completeWith_extends_segment : ∃ scope : Scope, isBoundary "cd é/R" 7 ∧
    (targetAt scope "cd é/R" 7).directory? = some "/Physical/S/é" ∧
    complete scope (fun _ => ["R2", "X", "R1", "R2"]) "cd é/R" 7 = ⟨3, ["é/R1", "é/R2"]⟩ ∧
    ∀ children, (complete scope children "cd é/R" 7).start ≤ 7 ∧
      (complete scope children "cd é/R" 7).candidates.Pairwise fun a b => Text.encode a < Text.encode b := by
  obtain ⟨scope, hscope⟩ : ∃ scope : Scope, scope = ⟨"/Physical/S", [], []⟩ := ⟨_, rfl⟩
  have hoffset : isBoundary "cd é/R" 7 := by decide
  refine ⟨scope, hoffset, ?_, ?_, fun children => ?_⟩
  · rw [hscope]
    decide
  · rw [hscope]
    decide
  · obtain ⟨before, after, head, word, -, -, -, asked, answer, hasked, -, hanswer⟩ :=
      completeWith_extends hoffset scope
    obtain ⟨names, hcomplete⟩ : ∃ names, complete scope children "cd é/R" 7 = answer names := by
      cases asked with
      | none => exact ⟨[], hasked Id children⟩
      | some directory => exact ⟨children directory, hasked Id children⟩
    rw [hcomplete]
    exact ⟨(hanswer names).2.1, (hanswer names).2.2.2⟩

end TwinShell.Completion
