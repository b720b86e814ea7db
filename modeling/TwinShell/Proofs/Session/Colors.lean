import TwinShell.Proofs.Language.Colors
import TwinShell.Proofs.Language.RoundTrip
import TwinShell.Proofs.Session.Replay

/-!
# Colors in commands

A color is an argument like any other, so what a command makes of it depends on the value it is read as. That value is written like the color unless the color has an exponent; then it is a float, whose text is another one, and a command that wants a color refuses it or stores a different color.
-/

namespace TwinShell

open Language

variable {color : String}

namespace Language

/-- An assignment of what is read of a text without a comment, at a depth that leaves room for a sign. -/
theorem parse_assign {name text : String} {node : Node} (hname : IsName name)
    (htext : Uncommented text.toList)
    (hvalue : ∀ depth, Reads (Parser.value (.ofDepth (depth + 2))) text.toList node []) :
    parse (".var:" ++ name ++ "=" ++ text) = .ok (.assign name node) := by
  have hline : (".var:" ++ name ++ "=" ++ text).toList =
      ".var:".toList ++ (name.toList ++ '=' :: text.toList) := by simp [String.toList_append]
  refine parse_of_reads ?_ rfl ?_
  · rw [hline]
    exact (uncommented_of_not_mem (by decide)).append (hname.uncommented.append (.cons (by decide) htext))
  · obtain ⟨depth, hdepth⟩ : ∃ depth, (".var:" ++ name ++ "=" ++ text).length + 1 = depth + 2 := by
      refine ⟨(".var:" ++ name ++ "=" ++ text).length - 1, ?_⟩
      have hlength := congrArg List.length hline
      rw [String.length_toList, List.length_append] at hlength
      have hfirst : ".var:".toList.length = 5 := rfl
      omega
    rw [hline, hdepth]
    exact reads_assignment hname (hvalue depth)

theorem parse_assignColor {name : String} {value : Value} (hname : IsName name) (hcolor : isColor color)
    (hvalue : ∀ depth, Reads (Parser.value (.ofDepth (depth + 1))) color.toList (.literal value) []) :
    parse (".var:" ++ name ++ "=" ++ color) = .ok (.assign name (.literal value)) :=
  parse_assign hname (isName_of_isColor hcolor).uncommented fun depth => hvalue (depth + 1)

theorem parse_tagColor {slug : String} {value : Value} (hslug : IsName slug) (hcolor : isColor color)
    (hvalue : ∀ depth, Reads (Parser.value (.ofDepth (depth + 1))) color.toList (.literal value) []) :
    parse ("+tag:" ++ slug ++ "@" ++ color) = .ok (.create (.tag (.text slug) (.literal value))) := by
  have htext : ("+tag:" ++ slug ++ "@" ++ color).toList =
      "+tag:".toList ++ (slug.toList ++ '@' :: color.toList) := by simp [String.toList_append]
  have hword := isName_of_isColor hcolor
  refine parse_of_reads ?_ rfl ?_
  · rw [htext]
    exact (uncommented_of_not_mem (by decide)).append
      (hslug.uncommented.append (.cons (by decide) hword.uncommented))
  · rw [htext]
    exact reads_tag hslug hword (hvalue _)

end Language

/-! ### Evaluation -/

def tagFields (slug color : String) : Object :=
  Dict.ofList [("slug", .str slug), ("color", .str color), ("description", .str slug)]

theorem get?_color_newObject (path slug color : String) :
    (newObject path .tag (tagFields slug color)).get? "color" = some (.str color) := by
  have hfields : (tagFields slug color).get? "color" = some (.str color) := by
    simp [tagFields, Dict.ofList, Dict.insertAll, Dict.get?_insert]
  rw [newObject, Dict.get?_insert, if_neg (by decide), Dict.insertNew]
  split
  · exact hfields
  · rw [Dict.get?_insert, if_neg (by decide), hfields]

namespace Command

section

variable {β ν : Type} [Hierarchy β] [Viewer ν] {s : Session β ν} {value : Value}

theorem execute_assign {name : String} {node : Node} {fuel : Nat} (hvalue : value.isAssignable)
    (heval : execute fuel node s = .ok value s) :
    execute (fuel + 1) (.assign name node) s =
      .ok .null { s with env := s.env.setVariable name value } := by
  show assign (execute fuel) name node s = _
  rw [assign, bind_of_ok heval, if_pos hvalue]
  rfl

theorem evalText_literal (hvalue : value.isAssignable) (fuel : Nat) :
    evalText (execute (fuel + 1)) (.literal value) s = .ok value.text s := by
  cases value with
  | null | list => cases hvalue
  | _ => rfl

/-- A tag with a literal for its color is drafted if the text of that literal is a color. -/
theorem draft_tag (slug : String) (hvalue : value.isAssignable) (fuel : Nat) :
    draft (execute (fuel + 1)) (.tag (.text slug) (.literal value)) s =
      if isColor value.text then .ok ⟨Path.join Path.tags slug, .tag, tagFields slug value.text⟩ s
      else .error (.failed (.type .color)) s := by
  have hevalSlug : evalText (execute (fuel + 1)) (.text slug) s = .ok slug s := rfl
  have hevalColor : evalColor (execute (fuel + 1)) (.literal value) s =
      if isColor value.text then .ok value.text s else .error (.failed (.type .color)) s := by
    rw [evalColor, bind_of_ok (evalText_literal hvalue fuel)]
    split <;> rfl
  refine (bind_of_ok hevalSlug).trans ?_
  by_cases hcolor : isColor value.text
  · rw [if_pos hcolor] at hevalColor ⊢
    exact bind_of_ok hevalColor
  · rw [if_neg hcolor] at hevalColor ⊢
    exact bind_of_error hevalColor

end

section

variable {ν : Type} [Viewer ν] {s : Session Store ν} {slug : String} {value : Value}

theorem execute_tag_of_color (hvalue : value.isAssignable) (hcolor : isColor value.text)
    (hslug : Language.IsName slug) (hnew : ¬s.hierarchy.objects.contains (Path.join Path.tags slug))
    (fuel : Nat) :
    ∃ object s', execute (fuel + 2) (.create (.tag (.text slug) (.literal value))) s =
        .ok (.object object) s' ∧
      s'.hierarchy.objects.get? (Path.join Path.tags slug) = some object ∧
      object.get? "color" = some (.str value.text) := by
  have hdraft := (draft_tag (s := s) slug hvalue fuel).trans (if_pos hcolor)
  have hparent : s.hierarchy.parentExists (Path.join Path.tags slug) = true := by
    have hslash : '/' ∉ slug.toList := fun hmem => absurd (hslug.all_nameChar _ hmem) (by decide)
    rw [Store.parentExists, Path.isNamespace_parent_join (by decide) hslash, Bool.true_or]
  generalize Path.join Path.tags slug = path at hnew hdraft hparent ⊢
  have hcreate : s.hierarchy.createObject path .tag (tagFields slug value.text) =
      .ok (newObject path .tag (tagFields slug value.text),
        ⟨s.hierarchy.objects.insert path (newObject path .tag (tagFields slug value.text))⟩) := by
    rw [Store.createObject, if_neg hnew, hparent]
    rfl
  obtain ⟨s', hrun, hstore, -⟩ := create_eq_ok hdraft hcreate
  refine ⟨_, s', hrun, ?_, get?_color_newObject path slug value.text⟩
  rw [hstore, Dict.get?_insert, if_pos rfl]

theorem execute_tag_of_not_color (hvalue : value.isAssignable) (hcolor : ¬isColor value.text)
    (fuel : Nat) : execute (fuel + 2) (.create (.tag (.text slug) (.literal value))) s =
      .error (.failed (.type .color)) s :=
  bind_of_error ((draft_tag slug hvalue fuel).trans (if_neg hcolor))

end

end Command

namespace Session

section

variable {β ν : Type} [Hierarchy β] [Viewer ν] {s s' : Session β ν} {line : String} {node : Node}

theorem run_of_ok {value : Value} (hparse : parse line = .ok node) (heval : eval node s = .ok value s') :
    run line s = .ok value s' := by
  unfold run
  simp only [hparse, heval]

theorem run_of_error {stop : Stop} (hparse : parse line = .ok node)
    (heval : eval node s = .error stop s') : run line s = .error (.ofStop stop) s' := by
  unfold run
  simp only [hparse, heval]

end

/-- Running `.var:` with a color, given the value it is read as. -/
theorem run_assignColor {β ν : Type} [Hierarchy β] [Viewer ν] (s : Session β ν) {name : String}
    {value : Value} (hname : IsName name) (hcolor : isColor color) (hvalue : value.isAssignable)
    (hreads : ∀ depth, Reads (Parser.value (.ofDepth (depth + 1))) color.toList (.literal value) []) :
    run (".var:" ++ name ++ "=" ++ color) s =
      .ok .null { s with env := s.env.setVariable name value } :=
  run_of_ok (parse_assignColor hname hcolor hreads) (Command.execute_assign hvalue rfl)

/-- Every color is read as some value, which an assignment stores and a tag takes for its color. It is written like the color exactly if the color has no exponent. -/
theorem color_kept_iff_not_exponential (color : String) (hcolor : isColor color) :
    ∃ value : Value, (value.text = color ↔ ¬IsExponential color) ∧
      (∀ (β ν : Type) [Hierarchy β] [Viewer ν] (s : Session β ν) (name : String), IsName name →
        run (".var:" ++ name ++ "=" ++ color) s =
          .ok .null { s with env := s.env.setVariable name value }) ∧
      ∀ (ν : Type) [Viewer ν] (s : Session Store ν) (slug : String), IsName slug →
        (isColor value.text → ¬s.hierarchy.objects.contains (Path.join Path.tags slug) →
          ∃ object s', run ("+tag:" ++ slug ++ "@" ++ color) s = .ok (.object object) s' ∧
            s'.hierarchy.objects.get? (Path.join Path.tags slug) = some object ∧
            object.get? "color" = some (.str value.text)) ∧
        (¬isColor value.text →
          run ("+tag:" ++ slug ++ "@" ++ color) s = .error (.failed (.type .color)) s) := by
  obtain ⟨value, hvalue, htext, hreads⟩ := exists_colorValue hcolor
  refine ⟨value, htext, fun β ν _ _ s name hname => run_assignColor s hname hcolor hvalue hreads,
    fun ν _ s slug hslug => ⟨fun hkept hnew => ?_, fun hlost => ?_⟩⟩
  · obtain ⟨object, s', heval, hstored, hfield⟩ : ∃ object s',
        eval (.create (.tag (.text slug) (.literal value))) s = .ok (.object object) s' ∧ _ :=
      Command.execute_tag_of_color hvalue hkept hslug hnew _
    exact ⟨object, s', run_of_ok (parse_tagColor hslug hcolor hreads) heval, hstored, hfield⟩
  · exact run_of_error (parse_tagColor hslug hcolor hreads)
      (Command.execute_tag_of_not_color hvalue hlost _)

/-- The zeros in front of a color are not lost. -/
theorem color_kept_leading_zeros :
    isColor "001122" ∧ ¬IsExponential "001122" ∧ ∃ (object : Object) (s' : Session Store Recorder),
      run "+tag:dark@001122" { hierarchy := .empty, viewer := {} } = .ok (.object object) s' ∧
      s'.hierarchy.objects.get? "/Logical/Tags/dark" = some object ∧
      object.get? "color" = some (.str "001122") := by
  have hcolor : isColor "001122" := by decide
  have hplain : ¬IsExponential "001122" := by
    rintro ⟨whole, mark, power, hword, -, -, hmark, -⟩
    have hdigits : Decimal.Unmarked "001122".toList := Decimal.unmarked_of_all rfl
    rw [hdigits mark (by simp [hword])] at hmark
    cases hmark
  have hpath : Path.join Path.tags "dark" = "/Logical/Tags/dark" := by decide +kernel
  obtain ⟨value, htext, -, htag⟩ := color_kept_iff_not_exponential "001122" hcolor
  have hline : "+tag:" ++ "dark" ++ "@" ++ "001122" = "+tag:dark@001122" := by decide
  have hkept := (htag Recorder { hierarchy := .empty, viewer := {} } "dark" (.of_all (by decide) rfl)).1
  rw [htext.2 hplain, hpath, hline] at hkept
  exact ⟨hcolor, hplain, hkept hcolor (by decide)⟩

/-- A color that is read as a number with an exponent: the variable holds another text. -/
theorem color_lost_to_exponent :
    isColor "123e45" ∧ ∃ (s s' : Session Store Recorder) (value : Value),
      run ".var:x=123e45" s = .ok .null s' ∧ s'.env.bindings.get? "x" = some value ∧
      value.text ≠ "123e45" := by
  have hcolor : isColor "123e45" := by decide
  have hexponential : IsExponential "123e45" :=
    ⟨['1', '2', '3'], 'e', ['4', '5'], by decide, List.all_eq_true.1 rfl, by decide, rfl,
      List.all_eq_true.1 rfl, by decide⟩
  obtain ⟨value, hvalue, htext, hreads⟩ := exists_colorValue hcolor
  let s : Session Store Recorder := { hierarchy := .empty, viewer := {} }
  have hname : IsName "x" := .of_all (by decide) rfl
  have hrun := run_assignColor s hname hcolor hvalue hreads
  have hline : ".var:" ++ "x" ++ "=" ++ "123e45" = ".var:x=123e45" := by decide
  rw [hline] at hrun
  refine ⟨hcolor, s, _, value, hrun, ?_, fun h => htext.1 h hexponential⟩
  exact (Dict.get?_insert _ _ _ _).trans (if_pos rfl)

end Session

end TwinShell
