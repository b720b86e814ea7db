import TwinShell.Proofs.Decimal
import TwinShell.Proofs.Language.Rendering

/-!
# Written statements hold no comment

A line loses its comment before it is read. A written statement has none: a slash in it is an operator between blanks, or stands in a text without two of them in a row. `Uncommented` says that a text starts no comment with whatever follows it, so that it goes through from the parts to the whole.
-/

namespace TwinShell.Language

variable {text : List Char}

/-- A text that starts no comment, whatever follows it. -/
def Uncommented (text : List Char) : Prop :=
  ∀ rest, commentless (text ++ rest) = text ++ commentless rest

theorem Uncommented.nil : Uncommented [] := fun _ => rfl

theorem Uncommented.append {s t : List Char} (hs : Uncommented s) (ht : Uncommented t) :
    Uncommented (s ++ t) := by
  intro rest
  rw [List.append_assoc, hs, ht, List.append_assoc]

theorem commentless_cons {c : Char} {cs : List Char}
    (h : ¬(c = '/' ∧ cs.head? = some '/')) : commentless (c :: cs) = c :: commentless cs := by
  rw [commentless]
  rintro rest rfl rfl
  exact h ⟨rfl, rfl⟩

theorem Uncommented.cons {c : Char} (hc : c ≠ '/') (h : Uncommented text) :
    Uncommented (c :: text) := by
  intro rest
  rw [List.cons_append, commentless_cons fun hslash => hc hslash.1, h, List.cons_append]

theorem Uncommented.tail {c : Char} (hc : c ≠ '/') (h : Uncommented (c :: text)) :
    Uncommented text := by
  intro rest
  have hrest := h rest
  rw [List.cons_append, commentless_cons fun hslash => hc hslash.1, List.cons_append] at hrest
  exact (List.cons.inj hrest).2

theorem uncommented_of_not_mem (h : '/' ∉ text) : Uncommented text := by
  induction text with
  | nil => exact .nil
  | cons c cs ih =>
    rw [List.mem_cons, not_or] at h
    exact .cons (Ne.symm h.1) (ih h.2)

theorem IsName.uncommented {name : String} (h : IsName name) : Uncommented name.toList :=
  uncommented_of_not_mem fun hmem => absurd (h.all_nameChar '/' hmem) (by decide)

/-- A text without two slashes in a row, before a character that is no slash. -/
theorem uncommented_concat {c : Char} (hc : c ≠ '/') (h : ¬['/', '/'] <:+: text) :
    Uncommented (text ++ [c]) := by
  induction text with
  | nil => exact .cons hc .nil
  | cons d ds ih =>
    intro rest
    have hds : ¬['/', '/'] <:+: ds := fun hinside => h (hinside.trans (List.suffix_cons d ds).isInfix)
    rw [List.cons_append, List.cons_append, commentless_cons, ih hds, List.cons_append]
    rintro ⟨rfl, hhead⟩
    cases ds with
    | nil => exact hc (by simpa using hhead)
    | cons d' ds =>
      rw [List.cons_append, List.cons_append, List.head?_cons, Option.some.injEq] at hhead
      subst hhead
      exact h ⟨[], ds, rfl⟩

theorem uncommented_operator (op : BinaryOp) : Uncommented (operatorText op) := by
  rcases op with (_ | _ | _ | _ | _ | _) | (_ | _ | _ | _) | _ | _ | _ | _ <;> exact fun _ => rfl

theorem Uncommented.parenthesized (h : Uncommented text) :
    Uncommented (Language.parenthesized text) :=
  .cons (by decide) (h.append (uncommented_of_not_mem (by decide)))

theorem Uncommented.operand {level : Nat} {e : Node} (h : Uncommented text) :
    Uncommented (operandText level e text) := by
  unfold operandText
  split
  · exact h.parenthesized
  · exact h

theorem Uncommented.block (h : Uncommented text) : Uncommented (blockText text) :=
  .cons (by decide) (h.append (uncommented_of_not_mem (by decide)))

theorem Uncommented.guarded {condition body : List Char} (hcondition : Uncommented condition)
    (hbody : Uncommented body) : Uncommented (guardedText condition body) :=
  .cons (by decide) (hcondition.append (.cons (by decide) hbody.block))

theorem uncommented_intercalate {separator : Char} (hslash : separator ≠ '/') {texts : List (List Char)}
    (h : ∀ text ∈ texts, Uncommented text) : Uncommented ([separator].intercalate texts) := by
  induction texts with
  | nil => exact .nil
  | cons text texts ih =>
    have htext := h text List.mem_cons_self
    by_cases hlast : texts = []
    · rw [hlast, List.intercalate_singleton]
      exact htext
    · rw [List.intercalate_cons_of_ne_nil hlast, List.append_assoc, List.singleton_append]
      exact htext.append (.cons hslash (ih fun other ho => h other (List.mem_cons_of_mem _ ho)))

theorem uncommented_items {items : List Node} (h : ∀ e ∈ items, Uncommented (expressionText e)) :
    Uncommented (itemsText items) := by
  rw [itemsText_eq_intercalate]
  exact uncommented_intercalate (by decide) (List.forall_mem_map.2 h)

theorem IsExpression.uncommented {e : Node} (h : IsExpression e) : Uncommented (expressionText e) := by
  induction h with
  | bool b =>
    rw [expressionText]
    cases b <;> exact uncommented_of_not_mem (by decide)
  | int hn =>
    rw [expressionText]
    exact uncommented_of_not_mem fun hmem =>
      absurd (Decimal.isDigit_of_mem_digitChars hmem) (by decide)
  | symbol hname =>
    rw [expressionText]
    exact .cons (by decide) hname.uncommented
  | element hname hindex ih =>
    rw [expressionText]
    exact .cons (by decide) (hname.uncommented.append
      (.cons (by decide) (ih.append (uncommented_of_not_mem (by decide)))))
  | array hitems ih =>
    rw [expressionText]
    exact .cons (by decide) ((uncommented_items ih).append (uncommented_of_not_mem (by decide)))
  | negate hoperand ih =>
    rw [expressionText]
    exact .cons (by decide) ih.operand
  | not hoperand ih =>
    rw [expressionText]
    exact .cons (by decide) ih.operand
  | binary op hleft hright ihleft ihright =>
    rw [expressionText]
    exact ihleft.operand.append ((uncommented_operator op).append ihright.operand)

theorem uncommented_statements {nodes : List Node}
    (h : ∀ node ∈ nodes, Uncommented (statementText node)) : Uncommented (statementsText nodes) := by
  rw [statementsText_eq_intercalate]
  exact uncommented_intercalate (by decide) (List.forall_mem_map.2 h)

theorem uncommented_otherwise {otherwise : Option Node}
    (h : ∀ node ∈ otherwise, Uncommented (statementText node)) :
    Uncommented (otherwiseText otherwise) := by
  cases otherwise with
  | none => rw [otherwiseText]; exact .nil
  | some node =>
    have hnode := h node rfl
    by_cases hcondition : ∃ c b o, node = .conditional c b o
    · obtain ⟨c, b, o, rfl⟩ := hcondition
      rw [statementText] at hnode
      rw [otherwiseText]
      -- Behind its first word a condition is written the same, whether that word is `if` or `elif`.
      have htail := (hnode.tail (c := 'i') (by decide)).tail (c := 'f') (by decide)
      have hword : Uncommented " elif".toList := uncommented_of_not_mem (by decide)
      exact hword.append htail
    · rw [otherwiseText_else fun heq => hcondition ⟨_, _, _, heq⟩]
      exact (uncommented_of_not_mem (by decide)).append hnode.block

theorem IsCore.uncommented {node : Node} (h : IsCore node) : Uncommented (statementText node) := by
  have hword : ∀ {word : String}, '/' ∉ word.toList → Uncommented word.toList :=
    fun h => uncommented_of_not_mem h
  induction h with
  | nop => rw [statementText_nop]; exact .nil
  | assign hname hvalue =>
    rw [statementText]
    exact (hword (by decide)).append (hname.uncommented.append
      ((hword (by decide)).append hvalue.uncommented))
  | print htext =>
    rw [Node.text, statementText]
    exact (hword (by decide)).append (uncommented_concat (by decide) htext.no_comment)
  | callAlias hname hkeyword => rw [statementText]; exact hname.uncommented
  | printDir => rw [statementText]; exact hword (by decide)
  | exit => rw [statementText]; exact hword (by decide)
  | defineAlias hname hbody ih =>
    rw [statementText]
    exact (hword (by decide)).append (hname.uncommented.append (.cons (by decide) ih.block))
  | conditional hcondition hbody hotherwise ihbody ihotherwise =>
    rw [statementText]
    exact (hword (by decide)).append ((hcondition.uncommented.guarded ihbody).append
      (uncommented_otherwise ihotherwise))
  | whileLoop hcondition hbody ih =>
    rw [statementText]
    exact (hword (by decide)).append (hcondition.uncommented.guarded ih)
  | forLoop hinit hone hcondition hstep hone' hbody ihinit ihstep ihbody =>
    rw [statementText]
    exact (hword (by decide)).append (ihinit.append (.cons (by decide)
      (hcondition.uncommented.append (.cons (by decide)
        (ihstep.append (.cons (by decide) (.cons (by decide) ihbody.block)))))))
  | forRange hname hfirst hlast hbody ih =>
    rw [statementText]
    exact (hword (by decide)).append (hname.uncommented.append ((hword (by decide)).append
      (hfirst.uncommented.append ((hword (by decide)).append
        (hlast.uncommented.append (.cons (by decide) ih.block))))))
  | forEach hname harray hbody ih =>
    rw [statementText]
    exact (hword (by decide)).append (hname.uncommented.append ((hword (by decide)).append
      (harray.uncommented.guarded ih)))
  | sequence htwo hstatements hsingle ih =>
    rw [statementText]
    exact uncommented_statements ih

end TwinShell.Language
