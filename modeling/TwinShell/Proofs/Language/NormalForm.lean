import TwinShell.Proofs.Language.Shapes

/-!
# The normal form of what is read

However many semicolons a list of statements has, and wherever it stands, what is read of it is in normal form: nothing for an empty list, the statement itself for a list of one, and otherwise two or more statements side by side, none of them empty and none a list of its own. A name in what is read is never empty.

The two meet in the rules of the grammar. What stands between semicolons comes from the rule for one statement, which never gives a list, and the rule that drops empty statements and collapses a list is the same at the top of a line, in a body and in `$(…)`. So it is enough to know what each node is put together of.
-/

namespace TwinShell

namespace Node

/-- A node stands in a tree: it is the tree, or it stands in one of its parts. -/
inductive Within (inner : Node) : Node → Prop
  | here : inner.Within inner
  | inside {part node : Node} (hpart : part ∈ node.parts) (h : inner.Within part) : inner.Within node

/-- A list of statements has two or more, which are neither empty nor lists themselves, and the name of a variable or of an alias is one. -/
structure Normal (node : Node) : Prop where
  several {nodes : List Node} (h : node = .sequence nodes) : 2 ≤ nodes.length
  single {nodes : List Node} (h : node = .sequence nodes) : ∀ statement ∈ nodes, statement.isSingle
  named : ∀ name ∈ node.name?, Language.IsName name

variable {node : Node}

/-- Only lists of statements can fail to be in normal form for another reason than a name. -/
theorem normal_of_named (hsingle : node.isSequence = false)
    (hnamed : ∀ name ∈ node.name?, Language.IsName name) : node.Normal where
  several h := by
    cases h
    cases hsingle
  single h := by
    cases h
    cases hsingle
  named := hnamed

theorem normal_sequence {nodes : List Node} (htwo : 2 ≤ nodes.length)
    (hsingle : ∀ node ∈ nodes, node.isSingle) : (sequence nodes).Normal where
  several h := by
    cases h
    exact htwo
  single h := by
    cases h
    exact hsingle
  named := nofun

theorem not_isSequence_of_isExpression (h : node.isExpression) : node.isSequence = false := by
  cases node with
  | sequence nodes => cases h
  | _ => rfl

/-- Every node of the tree is in normal form. -/
def NormalThroughout (node : Node) : Prop := ∀ ⦃inner : Node⦄, inner.Within node → inner.Normal

theorem normalThroughout_of_parts (hnode : node.Normal)
    (hparts : ∀ part ∈ node.parts, part.NormalThroughout) : node.NormalThroughout := by
  intro inner hinner
  cases hinner with
  | here => exact hnode
  | inside hpart h => exact hparts _ hpart h

end Node

namespace Language

theorem inherited_normalThroughout : Inherited Node.NormalThroughout Node.NormalThroughout where
  expression alone named parts :=
    Node.normalThroughout_of_parts
      (Node.normal_of_named (Node.not_isSequence_of_isExpression alone) named) parts
  lift := id
  statement _ single named _ parts :=
    Node.normalThroughout_of_parts (Node.normal_of_named single named) parts
  sequence two single parts := Node.normalThroughout_of_parts (Node.normal_sequence two single) parts

/-- Every node in what is read of a line is in normal form, at the top of the line as in bodies, in values and in `$(…)`. -/
theorem normal_of_parse {line : String} {node inner : Node} (h : parse line = .ok node)
    (hinner : inner.Within node) : inner.Normal :=
  inherited_normalThroughout.of_parse h hinner

/-- The commands in an alias, with more semicolons than statements. -/
theorem normal_in_alias :
    parse ";; alias go { ; .var:x=$(pwd;;pwd); ;exit } ;" = .ok (.defineAlias "go"
      (.sequence [.assign "x" (.sequence [.printDir, .printDir]), .exit])) ∧
    (Node.sequence [.printDir, .printDir]).Normal ∧
    (Node.sequence [.assign "x" (.sequence [.printDir, .printDir]), .exit]).Normal := by
  have hparse : parse ";; alias go { ; .var:x=$(pwd;;pwd); ;exit } ;" = .ok (.defineAlias "go"
      (.sequence [.assign "x" (.sequence [.printDir, .printDir]), .exit])) := by rfl
  refine ⟨hparse, normal_of_parse hparse ?_, normal_of_parse hparse ?_⟩
  · exact .inside (List.mem_cons_self) (.inside List.mem_cons_self (.inside List.mem_cons_self .here))
  · exact .inside List.mem_cons_self .here

end Language

end TwinShell
