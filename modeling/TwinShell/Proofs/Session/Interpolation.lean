import TwinShell.Hierarchy.Store
import TwinShell.Proofs.Dict
import TwinShell.Proofs.Language.RoundTrip
import TwinShell.Proofs.Session.Steps
import TwinShell.Proofs.Template

/-!
# Interpolation

A quoted text is read token by token into a template, in which a percent sign is doubled and a reference is the directive `%v`; the template is filled when the text is evaluated. `Substitutes` says what the text means without a template: a reference is replaced by the text of its value, and every other character stands for itself. What carries the proof is `Spells`: filling what was read so far writes what is meant by it, whatever follows in the template and whatever arguments are left.
-/

namespace TwinShell

namespace Language

open TwinShell.Language.Parser (TextPieces textPieces textNode)

variable {bindings : Dict Value} {text result : List Char}

/-! ### Substitution -/

/-- A reference to a variable inside a text. -/
def referenceText (name : String) : List Char := '$' :: '\x7b' :: (name.toList ++ ['\x7d'])

/-- Every dollar sign of a text starts a reference to a variable that has a value. -/
def RefersOnly (bindings : Dict Value) (text : List Char) : Prop :=
  ∀ before after, text = before ++ '$' :: after →
    ∃ name, IsName name ∧ bindings.contains name ∧ referenceText name <+: '$' :: after

/-- A text in which each reference is replaced by the text of its value and every other character is copied. -/
inductive Substitutes (bindings : Dict Value) : List Char → List Char → Prop where
  | nil : Substitutes bindings [] []
  | char {c : Char} {text result : List Char} (hc : c ≠ '$') (h : Substitutes bindings text result) :
    Substitutes bindings (c :: text) (c :: result)
  | reference {name : String} {value : Value} {text result : List Char} (hname : IsName name)
    (hvalue : bindings.get? name = some value) (h : Substitutes bindings text result) :
    Substitutes bindings (referenceText name ++ text) (value.text.toList ++ result)

theorem Substitutes.self (h : '$' ∉ text) : Substitutes bindings text text := by
  induction text with
  | nil => exact .nil
  | cons c cs ih =>
    rw [List.mem_cons, not_or] at h
    exact .char (Ne.symm h.1) (ih h.2)

theorem RefersOnly.of_append {s t : List Char} (h : RefersOnly bindings (s ++ t)) :
    RefersOnly bindings t := by
  intro before after ht
  refine h (s ++ before) after ?_
  rw [ht, List.append_assoc]

theorem RefersOnly.substitutes (h : RefersOnly bindings text) :
    ∃ result, Substitutes bindings text result := by
  induction hn : text.length using Nat.strongRecOn generalizing text with
  | ind n ih =>
    cases text with
    | nil => exact ⟨[], .nil⟩
    | cons c cs =>
      by_cases hc : c = '$'
      · subst hc
        obtain ⟨name, hname, hdefined, rest, hrest⟩ := h [] cs rfl
        obtain ⟨value, hvalue⟩ := Dict.contains_iff.1 hdefined
        rw [← hrest] at h hn ⊢
        have hlt : rest.length < n := by
          simp only [referenceText, List.length_append, List.length_cons] at hn
          omega
        obtain ⟨result, hresult⟩ := ih _ hlt h.of_append rfl
        exact ⟨_, .reference hname hvalue hresult⟩
      · have htail : RefersOnly bindings cs := RefersOnly.of_append (s := [c]) h
        obtain ⟨result, hresult⟩ := ih cs.length (by simp [← hn]) htail rfl
        exact ⟨_, .char hc hresult⟩

theorem Substitutes.refersOnly (h : Substitutes bindings text result) : RefersOnly bindings text := by
  induction h with
  | nil =>
    intro before after htext
    simp at htext
  | char hc h ih =>
    intro before after htext
    cases before with
    | nil => exact absurd (List.cons.inj htext).1 hc
    | cons d before => exact ih before after (List.cons.inj htext).2
  | @reference name value text result hname hvalue h ih =>
    intro before after htext
    rcases List.append_eq_append_iff.1 htext with ⟨skipped, -, hskipped⟩ | ⟨inside, href, hinside⟩
    · exact ih skipped after hskipped
    · cases before with
      | nil =>
        refine ⟨name, hname, Dict.contains_iff.2 ⟨value, hvalue⟩, text, ?_⟩
        rw [htext, List.nil_append]
      | cons c before =>
        cases inside with
        | nil => exact ih [] after hinside.symm
        | cons d inside =>
          -- Behind its first character a reference has no dollar sign.
          have hd : '$' ∈ '\x7b' :: (name.toList ++ ['\x7d']) := by
            rw [(List.cons.inj href).2, (List.cons.inj hinside).1]
            simp
          simp only [List.mem_cons, List.mem_append, List.not_mem_nil, or_false] at hd
          rcases hd with hd | hd | hd
          · exact absurd hd (by decide)
          · exact absurd (hname.all_nameChar _ hd) (by decide)
          · exact absurd hd (by decide)

theorem referenceText_inj {name name' : String} {rest rest' : List Char} (hname : IsName name)
    (hname' : IsName name') (h : referenceText name ++ rest = referenceText name' ++ rest') :
    name = name' ∧ rest = rest' := by
  have hbrace : ∀ rest, headAvoids Text.isNameChar ('\x7d' :: rest) := fun _ => rfl
  have hbody : name.toList ++ '\x7d' :: rest = name'.toList ++ '\x7d' :: rest' := by
    simpa [referenceText] using h
  have hend := Cursor.skipWhile_append 0 hname.all_nameChar (hbrace rest)
  rw [hbody, Cursor.skipWhile_append 0 hname'.all_nameChar (hbrace rest')] at hend
  obtain ⟨hlength, hrest⟩ := Cursor.mk.inj hend
  rw [hrest] at hbody
  exact ⟨String.toList_inj.1 (List.append_cancel_right hbody), (List.cons.inj hrest).2.symm⟩

/-- Substitution has one result. -/
theorem Substitutes.unique {result' : List Char} (h : Substitutes bindings text result)
    (h' : Substitutes bindings text result') : result' = result := by
  induction h generalizing result' with
  | nil =>
    generalize htext : ([] : List Char) = text at h'
    cases h' with
    | nil => rfl
    | char | reference => cases htext
  | @char c text result hc h ih =>
    generalize htext : c :: text = text' at h'
    cases h' with
    | nil => cases htext
    | char hc' h' =>
      cases htext
      rw [ih h']
    | reference => exact absurd (List.cons.inj htext).1 hc
  | @reference name value text result hname hvalue h ih =>
    generalize htext : referenceText name ++ text = text' at h'
    cases h' with
    | nil => cases htext
    | char hc' => exact absurd (List.cons.inj htext).1.symm hc'
    | reference hname' hvalue' h' =>
      obtain ⟨rfl, rfl⟩ := referenceText_inj hname hname' htext
      rw [hvalue] at hvalue'
      cases hvalue'
      rw [ih h']

/-- What comes first is a run of characters without a dollar sign. -/
theorem Substitutes.exists_run (h : Substitutes bindings text result) :
    ∃ run more result', text = run ++ more ∧ result = run ++ result' ∧ '$' ∉ run ∧
      Substitutes bindings more result' ∧ (more = [] ∨ more.head? = some '$') := by
  induction h with
  | nil => exact ⟨[], [], [], rfl, rfl, List.not_mem_nil, .nil, .inl rfl⟩
  | @char c text result hc h ih =>
    obtain ⟨run, more, result', rfl, rfl, hrun, hmore, hhead⟩ := ih
    refine ⟨c :: run, more, result', rfl, rfl, ?_, hmore, hhead⟩
    rw [List.mem_cons, not_or]
    exact ⟨Ne.symm hc, hrun⟩
  | reference hname hvalue h ih =>
    exact ⟨[], _, _, rfl, rfl, List.not_mem_nil, .reference hname hvalue h, .inr rfl⟩

/-! ### What was read so far -/

/-- What was read of a text writes `result`, from the values of the variables it uses. -/
structure Spells (bindings : Dict Value) (pieces : TextPieces) (uses : List (String × Value))
    (result : List Char) : Prop where
  args : pieces.args.reverse = uses.map fun use => .symbol use.1
  defined : ∀ use ∈ uses, bindings.get? use.1 = some use.2
  filled : ∀ template args rest,
    Template.fillFrom template (uses.map Prod.snd ++ args) (pieces.template ++ rest) =
      (Template.fillFrom template args rest).map (result ++ ·)
  plain : pieces.args = [] → pieces.plain = result

namespace Spells

variable {pieces : TextPieces} {uses : List (String × Value)}

theorem empty : Spells bindings {} [] [] where
  args := rfl
  defined := by simp
  filled _ _ _ := (congrFun Except.map_id _).symm
  plain _ := rfl

theorem addText (h : Spells bindings pieces uses result) (chars : List Char) :
    Spells bindings (pieces.addText chars) uses (result ++ chars) where
  args := h.args
  defined := h.defined
  filled template args rest := by
    rw [TextPieces.addText, List.append_assoc, h.filled, Template.fillFrom_escaped,
      Template.map_append]
  plain hargs := by rw [TextPieces.addText, h.plain hargs]

theorem addValue {name : String} {value : Value} (h : Spells bindings pieces uses result)
    (hvalue : bindings.get? name = some value) :
    Spells bindings (pieces.addValue (.symbol name)) (uses ++ [(name, value)])
      (result ++ value.text.toList) where
  args := by
    rw [TextPieces.addValue, List.reverse_cons, h.args, List.map_append, List.map_singleton]
  defined use huse := by
    rcases List.mem_append.1 huse with huse | huse
    · exact h.defined use huse
    · rw [List.mem_singleton.1 huse, hvalue]
  filled template args rest := by
    rw [TextPieces.addValue, List.map_append, List.append_assoc, List.append_assoc, h.filled,
      ← Template.map_append, ← Template.fillFrom_value]
    rfl
  plain hargs := by cases hargs

end Spells

/-! ### Reading -/

/-- The reference that comes next in a quoted text. -/
theorem quoted_reference {name : String} (hname : IsName name) (rest : List Char) (pos : Nat) :
    (TextMode.quoted.token ⟨pos, referenceText name ++ rest⟩).1.kind = .reference name ∧
    (TextMode.quoted.token ⟨pos, referenceText name ++ rest⟩).2 =
      ⟨pos + (referenceText name).length, rest⟩ := by
  obtain ⟨c, cs, hcs, hc⟩ := hname.exists_cons
  have hblank : headAvoids Text.isSpaceOrTab (name.toList ++ '\x7d' :: rest) := by
    simp [hcs, headAvoids, not_space_of_isNameChar hc]
  have hopen : Cursor.skip ⟨pos, '$' :: '\x7b' :: (name.toList ++ '\x7d' :: rest)⟩ 1 =
      ⟨pos + 1, '\x7b' :: (name.toList ++ '\x7d' :: rest)⟩ := Cursor.skip_append ['$'] _ pos
  have hfirst : Cursor.skip ⟨pos + 1, '\x7b' :: (name.toList ++ '\x7d' :: rest)⟩ 1 =
      ⟨pos + 2, name.toList ++ '\x7d' :: rest⟩ := Cursor.skip_append ['\x7b'] _ (pos + 1)
  have hblanks := Cursor.skipWhile_of_headAvoids (pos + 2) hblank
  have hlast := Cursor.skipWhile_append (pos + 2) hname.all_nameChar
    (show headAvoids Text.isNameChar ('\x7d' :: rest) from rfl)
  have hclose := Cursor.skipWhile_of_headAvoids (pos + 2 + name.toList.length)
    (show headAvoids Text.isSpaceOrTab ('\x7d' :: rest) from rfl)
  have hend : Cursor.skip ⟨pos + 2 + name.toList.length, '\x7d' :: rest⟩ 1 =
      ⟨pos + 2 + name.toList.length + 1, rest⟩ := Cursor.skip_append ['\x7d'] _ _
  have hmoved : pos + 2 + name.toList.length ≠ pos + 2 := by simp [hcs]
  have htext : referenceText name ++ rest = '$' :: '\x7b' :: (name.toList ++ '\x7d' :: rest) := by
    simp [referenceText]
  have hlength : pos + (referenceText name).length = pos + 2 + name.toList.length + 1 := by
    simp only [referenceText, List.length_cons, List.length_append, List.length_nil]
    omega
  rw [htext, hlength]
  simp only [TextMode.token, Cursor.textToken, Cursor.reference?, Cursor.peek?, List.head?_cons,
    if_true, hopen, hfirst, Cursor.skipSpaces, hblanks, hlast, hclose, hend, hmoved, ne_eq,
    not_false_eq_true, and_self, Cursor.emit, Cursor.textSince_append]

theorem textPieces_reference {g : Grammar} {fuel : Nat} {pieces : TextPieces} {name : String}
    (hname : IsName name) (more : List Char) (ctx : Context) (pos : Nat) :
    textPieces g .quoted (fuel + 1) pieces ctx ⟨pos, referenceText name ++ more⟩ =
      textPieces g .quoted fuel (pieces.addValue (.symbol name)) ctx
        ⟨pos + (referenceText name).length, more⟩ := by
  obtain ⟨hkind, hcursor⟩ := quoted_reference hname more pos
  simp only [textPieces, Parser.bind_apply, Parser.reading, hkind, hcursor]

/-- Each token adds to what was read so far just what it means. -/
theorem exists_textPieces (g : Grammar) (rest : List Char) {pieces : TextPieces}
    {uses : List (String × Value)} {before : List Char} {fuel : Nat}
    (h : Substitutes bindings text result) (hquote : '"' ∉ text)
    (hpieces : Spells bindings pieces uses before) (hfuel : text.length < fuel) :
    ∃ pieces' uses', Spells bindings pieces' uses' (before ++ result) ∧
      Reads (textPieces g .quoted fuel pieces) text pieces' ('"' :: rest) := by
  induction hn : text.length using Nat.strongRecOn
    generalizing text result pieces uses before fuel with
  | ind n ih =>
    obtain ⟨fuel, rfl⟩ : ∃ m, fuel = m + 1 := Nat.exists_eq_add_one.2 (Nat.zero_lt_of_lt hfuel)
    obtain ⟨run, more, result, rfl, rfl, hdollar, hmore, hhead⟩ := h.exists_run
    rw [List.mem_append, not_or] at hquote
    rw [List.length_append] at hn hfuel
    by_cases hrun : run = []
    · subst hrun
      cases hmore with
      | nil => exact ⟨pieces, uses, by simpa using hpieces, fun ctx pos => textPieces_end (by simp) rfl ctx pos⟩
      | char hc => exact absurd hhead (by simpa using hc)
      | @reference name value more result hname hvalue hmore =>
        rw [List.length_append] at hn hfuel
        have hlength : 0 < (referenceText name).length := Nat.succ_pos _
        rw [List.mem_append, not_or] at hquote
        obtain ⟨pieces', uses', hspells, hreads⟩ :=
          ih more.length (by omega) hmore hquote.2.2 (hpieces.addValue hvalue)
            (show more.length < fuel by omega) rfl
        refine ⟨pieces', uses', by simpa using hspells, fun ctx pos => ?_⟩
        rw [List.nil_append, List.append_assoc, textPieces_reference hname, hreads,
          List.length_append, Nat.add_assoc]
    · have hlength := List.length_pos_iff.2 hrun
      obtain ⟨pieces', uses', hspells, hreads⟩ :=
        ih more.length (by omega) hmore hquote.2 (hpieces.addText run)
          (show more.length < fuel by omega) rfl
      refine ⟨pieces', uses', by simpa using hspells, fun ctx pos => ?_⟩
      have hnext : headAvoids TextMode.quoted.isText (more ++ '"' :: rest) := by
        rcases hhead with rfl | hhead
        · rfl
        · rw [headAvoids, List.head?_append, hhead]
          rfl
      rw [List.append_assoc, textPieces_run hrun (isText_quoted hquote.1 hdollar) hnext, hreads,
        List.length_append, Nat.add_assoc]

/-- A quoted text is read as a node that writes what is meant by it. -/
theorem exists_textNode (g : Grammar) (rest : List Char) (h : Substitutes bindings text result)
    (hquote : '"' ∉ text) :
    ∃ pieces uses, Spells bindings pieces uses result ∧
      Reads (textNode g .quoted false) text (pieces.toNode false) ('"' :: rest) := by
  have hfuel : text.length < (text ++ '"' :: rest).length + 1 := by
    rw [List.length_append]
    omega
  obtain ⟨pieces, uses, hspells, hreads⟩ := exists_textPieces g rest h hquote .empty hfuel
  refine ⟨pieces, uses, hspells, fun ctx pos => ?_⟩
  simp only [textNode, Parser.bind_apply, Parser.look, hreads ctx pos]
  rfl

end Language

/-! ### Evaluation -/

namespace Command

open Language

variable {β ν : Type} [Hierarchy β] [Viewer ν]

theorem execute_symbol {s : Session β ν} {name : String} {value : Value}
    (h : s.env.bindings.get? name = some value) (fuel : Nat) :
    execute (fuel + 1) (.symbol name) s = .ok value s := by
  have henv : getEnv s = .ok s.env s := rfl
  show lookUp name s = _
  rw [lookUp, bind_of_ok henv, h]
  rfl

theorem evalAll_symbols {s : Session β ν} {uses : List (String × Value)}
    (h : ∀ use ∈ uses, s.env.bindings.get? use.1 = some use.2) (fuel : Nat) :
    evalAll (execute (fuel + 1)) (uses.map fun use => .symbol use.1) s = .ok (uses.map Prod.snd) s := by
  induction uses with
  | nil => rfl
  | cons use uses ih =>
    obtain ⟨huse, huses⟩ := List.forall_mem_cons.1 h
    rw [List.map_cons, evalAll, bind_of_ok (execute_symbol huse fuel), bind_of_ok (ih huses)]
    rfl

theorem execute_toNode {s : Session β ν} {pieces : Parser.TextPieces} {uses : List (String × Value)}
    {result : List Char} (h : Spells s.env.bindings pieces uses result) (fuel : Nat) :
    execute (fuel + 2) (pieces.toNode false) s = .ok (.str (String.ofList result)) s := by
  by_cases hargs : pieces.args = []
  · have hnode : pieces.toNode false = .text (String.ofList result) := by
      simp [Parser.TextPieces.toNode, hargs, h.plain hargs]
    rw [hnode]
    rfl
  · have hnode : pieces.toNode false =
        .interpolation (String.ofList pieces.template) (uses.map fun use => .symbol use.1) := by
      simp [Parser.TextPieces.toNode, hargs, h.args]
    have hfilled : Template.format (String.ofList pieces.template) (uses.map Prod.snd) =
        .ok (String.ofList result) := by
      have hfill := h.filled (String.ofList pieces.template) [] []
      rw [List.append_nil, List.append_nil] at hfill
      rw [Template.format, String.toList_ofList, hfill, Template.fillFrom]
      simp [Except.map]
    rw [hnode]
    show (evalAll (execute (fuel + 1)) _ >>= filled _) s = _
    rw [bind_of_ok (evalAll_symbols h.defined fuel), filled, hfilled]
    rfl

end Command

namespace Session

open Language

variable {β ν : Type} [Hierarchy β] [Viewer ν]

/-- Interpolation is literal substitution: a text between quotes in which every dollar sign starts a reference to a variable with a value is read and evaluates to that text with each reference replaced by the text of its value and every other character copied. -/
theorem eval_quoted_substitutes (s : Session β ν) (body : String) (hquote : '"' ∉ body.toList)
    (hcomment : ¬['/', '/'] <:+: body.toList) (hrefers : RefersOnly s.env.bindings body.toList) :
    ∃ node result, parseExpression ("\"" ++ body ++ "\"") = .ok node ∧
      Substitutes s.env.bindings body.toList result ∧
      (∀ other, Substitutes s.env.bindings body.toList other → other = result) ∧
      eval node s = .ok (.str (String.ofList result)) s := by
  obtain ⟨result, hresult⟩ := hrefers.substitutes
  have htext : ("\"" ++ body ++ "\"").toList = '"' :: (body.toList ++ ['"']) := by
    simp [String.toList_append]
  obtain ⟨pieces, uses, hspells, hreads⟩ := exists_textNode _ _ hresult hquote
  refine ⟨pieces.toNode false, result, ?_, hresult, fun other => hresult.unique,
    Command.execute_toNode hspells _⟩
  refine parseExpression_of_reads ?_ ?_
  · rw [htext]
    exact .cons (by decide) (uncommented_concat (by decide) hcomment)
  · rw [htext]
    exact reads_betweenQuotes hreads .nil

/-- Percent signs around a reference stay, and those in the value are not read as directives. -/
theorem eval_quoted_substitutes_percent :
    ∃ (s : Session Store Recorder) (node : Node),
      RefersOnly s.env.bindings "%$\x7bx\x7d.2f%".toList ∧
      parseExpression "\"%$\x7bx\x7d.2f%\"" = .ok node ∧
      eval node s = .ok (.str "%5%d.2f%") s := by
  obtain ⟨s, hs⟩ : ∃ s : Session Store Recorder, s.env.bindings.get? "x" = some (.str "5%d") :=
    ⟨{ env := { bindings := Dict.empty.insert "x" (.str "5%d") }, hierarchy := .empty, viewer := {} }, rfl⟩
  have hresult : Substitutes s.env.bindings "%$\x7bx\x7d.2f%".toList "%5%d.2f%".toList :=
    .char (by decide) (.reference (.of_all (by decide) rfl) hs (.self (by decide)))
  have hcomment : ¬['/', '/'] <:+: "%$\x7bx\x7d.2f%".toList := fun h =>
    absurd (h.subset List.mem_cons_self) (by decide)
  obtain ⟨node, result, hparse, -, hunique, heval⟩ :=
    eval_quoted_substitutes s "%$\x7bx\x7d.2f%" (by decide) hcomment hresult.refersOnly
  rw [← hunique _ hresult, String.ofList_toList] at heval
  have hline : "\"" ++ "%$\x7bx\x7d.2f%" ++ "\"" = "\"%$\x7bx\x7d.2f%\"" := by decide
  rw [hline] at hparse
  exact ⟨s, node, hresult.refersOnly, hparse, heval⟩

end Session

end TwinShell
