import TwinShell.Language.Parser.Command

/-!
# Writing commands

The core of the command language, as predicates on nodes, and how its nodes are written. An expression is written with no more parentheses than it needs: around a binary operation that is the left operand of an operator that binds tighter, the right operand of one that binds at least as tightly, or the operand of a sign.
-/

namespace TwinShell

/-- How tightly an expression binds. Only a binary operation can be split up by what surrounds it. -/
def Node.level : Node → Nat
  | .binary op _ _ => op.level
  | _ => 6

theorem BinaryOp.level_pos (op : BinaryOp) : 1 ≤ op.level := by
  unfold level
  split <;> decide

theorem BinaryOp.level_lt (op : BinaryOp) : op.level < 6 := by
  unfold level
  split <;> decide

theorem Node.level_pos (e : Node) : 1 ≤ e.level := by
  unfold level
  split
  · exact BinaryOp.level_pos _
  · decide

theorem Node.level_le (e : Node) : e.level ≤ 6 := by
  unfold level
  split
  · exact Nat.le_of_lt (BinaryOp.level_lt _)
  · decide

def Node.isSequence : Node → Bool
  | .sequence _ => true
  | _ => false

/-- Whether a node is one statement: neither none nor several. -/
def Node.isSingle : Node → Bool
  | .nop => false
  | .sequence _ => false
  | _ => true

def Node.isConditional : Node → Bool
  | .conditional .. => true
  | _ => false

theorem Node.not_isSequence_of_isSingle {node : Node} (h : node.isSingle) : ¬node.isSequence := by
  intro hseq
  unfold isSequence at hseq
  split at hseq
  · cases h
  · cases hseq

namespace Language

/-- Letters, digits and underscores, at least one. -/
structure IsName (name : String) : Prop where
  ne_empty : name ≠ ""
  all_nameChar : ∀ c ∈ name.toList, Text.isNameChar c

theorem IsName.of_all {name : String} (hne : name ≠ "") (hall : name.toList.all Text.isNameChar) :
    IsName name :=
  ⟨hne, List.all_eq_true.1 hall⟩

/-- A text that can stand between quotes as it is. -/
structure IsQuotable (text : String) : Prop where
  no_quote : '"' ∉ text.toList
  no_reference : '$' ∉ text.toList
  no_comment : ¬['/', '/'] <:+: text.toList

/-- The expressions of the core language. -/
inductive IsExpression : Node → Prop where
  | bool (b : Bool) : IsExpression (.literal (.bool b))
  | int {n : Int64} (hn : 0 ≤ n) : IsExpression (.literal (.int n))
  | symbol {name : String} (hname : IsName name) : IsExpression (.symbol name)
  | element {name : String} {index : Node} (hname : IsName name) (hindex : IsExpression index) :
    IsExpression (.element name index)
  | array {items : List Node} (hitems : ∀ item ∈ items, IsExpression item) :
    IsExpression (.array items)
  | negate {operand : Node} (hoperand : IsExpression operand) : IsExpression (.negate operand)
  | not {operand : Node} (hoperand : IsExpression operand) : IsExpression (.not operand)
  | binary (op : BinaryOp) {left right : Node} (hleft : IsExpression left)
    (hright : IsExpression right) : IsExpression (.binary op left right)

/-- The statements of the core language. A body may be empty or a list of statements; a list has at least two statements, and what starts or steps a loop is at most one. -/
inductive IsCore : Node → Prop where
  | nop : IsCore .nop
  | assign {name : String} {value : Node} (hname : IsName name) (hvalue : IsExpression value) :
    IsCore (.assign name value)
  | print {text : String} (htext : IsQuotable text) : IsCore (.print (.text text))
  | callAlias {name : String} (hname : IsName name) (hkeyword : name ∉ keywords.map Prod.fst) :
    IsCore (.callAlias name)
  | printDir : IsCore .printDir
  | exit : IsCore .exit
  | defineAlias {name : String} {body : Node} (hname : IsName name) (hbody : IsCore body) :
    IsCore (.defineAlias name body)
  | conditional {condition body : Node} {otherwise : Option Node}
    (hcondition : IsExpression condition) (hbody : IsCore body)
    (hotherwise : ∀ node ∈ otherwise, IsCore node) :
    IsCore (.conditional condition body otherwise)
  | whileLoop {condition body : Node} (hcondition : IsExpression condition) (hbody : IsCore body) :
    IsCore (.whileLoop condition body)
  | forLoop {init condition step body : Node} (hinit : IsCore init) (hone : ¬init.isSequence)
    (hcondition : IsExpression condition) (hstep : IsCore step) (hone' : ¬step.isSequence)
    (hbody : IsCore body) : IsCore (.forLoop init condition step body)
  | forRange {name : String} {first last body : Node} (hname : IsName name)
    (hfirst : IsExpression first) (hlast : IsExpression last) (hbody : IsCore body) :
    IsCore (.forRange name first last body)
  | forEach {name : String} {array body : Node} (hname : IsName name)
    (harray : IsExpression array) (hbody : IsCore body) : IsCore (.forEach name array body)
  | sequence {statements : List Node} (htwo : 2 ≤ statements.length)
    (hstatements : ∀ node ∈ statements, IsCore node)
    (hsingle : ∀ node ∈ statements, node.isSingle) : IsCore (.sequence statements)

def parenthesized (text : List Char) : List Char := '(' :: (text ++ [')'])

/-- The text of an operand that has to bind at least as tightly as `level`. -/
def operandText (level : Nat) (operand : Node) (text : List Char) : List Char :=
  if operand.level < level then parenthesized text else text

/-- An operator with a blank on either side. -/
def operatorText (op : BinaryOp) : List Char := ' ' :: (op.spelling.toList ++ [' '])

mutual

def expressionText : Node → List Char
  | .literal (.bool b) => if b then "true".toList else "false".toList
  | .literal (.int n) => Decimal.digitChars n.toInt.toNat
  | .symbol name => '$' :: name.toList
  | .element name index => '$' :: (name.toList ++ '[' :: (expressionText index ++ [']']))
  | .array items => '[' :: (itemsText items ++ [']'])
  | .negate operand => '-' :: operandText 6 operand (expressionText operand)
  | .not operand => '!' :: operandText 6 operand (expressionText operand)
  | .binary op left right =>
    operandText op.level left (expressionText left) ++
      (operatorText op ++ operandText (op.level + 1) right (expressionText right))
  | _ => []
termination_by node => sizeOf node

def itemsText : List Node → List Char
  | [] => []
  | [item] => expressionText item
  | item :: rest => expressionText item ++ ',' :: itemsText rest
termination_by items => sizeOf items

end

theorem itemsText_cons {item : Node} {items : List Node} (hne : items ≠ []) :
    itemsText (item :: items) = expressionText item ++ ',' :: itemsText items := by
  cases items with
  | nil => exact absurd rfl hne
  | cons next items => rw [itemsText]; simp

theorem itemsText_eq_intercalate (items : List Node) :
    itemsText items = [','].intercalate (items.map expressionText) := by
  induction items with
  | nil => rw [itemsText]; rfl
  | cons item items ih =>
    by_cases hlast : items = []
    · rw [hlast, itemsText, List.map_singleton, List.intercalate_singleton]
    · rw [itemsText_cons hlast, ih, List.map_cons,
        List.intercalate_cons_of_ne_nil (by simpa using hlast), List.append_assoc, List.singleton_append]

def blockText (body : List Char) : List Char := '\x7b' :: (body ++ ['\x7d'])

/-- A condition and the body it guards. -/
def guardedText (condition body : List Char) : List Char :=
  ' ' :: (condition ++ ' ' :: blockText body)

mutual

/-- The text of a statement, or of statements separated by semicolons. -/
def statementText : Node → List Char
  | .assign name value => ".var:".toList ++ (name.toList ++ ("=eval ".toList ++ expressionText value))
  | .print (.literal (.str text)) => "print \"".toList ++ (text.toList ++ ['"'])
  | .callAlias name => name.toList
  | .printDir => "pwd".toList
  | .exit => "exit".toList
  | .defineAlias name body => "alias ".toList ++ (name.toList ++ ' ' :: blockText (statementText body))
  | .conditional condition body otherwise =>
    "if".toList ++ (guardedText (expressionText condition) (statementText body) ++
      otherwiseText otherwise)
  | .whileLoop condition body =>
    "while".toList ++ guardedText (expressionText condition) (statementText body)
  | .forLoop init condition step body =>
    "for (".toList ++ (statementText init ++ ';' :: (expressionText condition ++
      ';' :: (statementText step ++ ')' :: ' ' :: blockText (statementText body))))
  | .forRange name first last body =>
    "for ".toList ++ (name.toList ++ (" in ".toList ++ (expressionText first ++
      ("..".toList ++ (expressionText last ++ ' ' :: blockText (statementText body))))))
  | .forEach name array body =>
    "for ".toList ++ (name.toList ++ (" in".toList ++
      guardedText (expressionText array) (statementText body)))
  | .sequence statements => statementsText statements
  | _ => []
termination_by node => sizeOf node

/-- The text of the alternatives of a condition. An alternative with a condition of its own is an `elif`. -/
def otherwiseText : Option Node → List Char
  | none => []
  | some (.conditional condition body otherwise) =>
    " elif".toList ++ (guardedText (expressionText condition) (statementText body) ++
      otherwiseText otherwise)
  | some node => " else ".toList ++ blockText (statementText node)
termination_by node => sizeOf node

def statementsText : List Node → List Char
  | [] => []
  | [node] => statementText node
  | node :: rest => statementText node ++ ';' :: statementsText rest
termination_by nodes => sizeOf nodes

end

theorem statementText_nop : statementText .nop = [] := by simp [statementText]

theorem otherwiseText_else {node : Node} (h : ∀ {condition body otherwise},
    node ≠ .conditional condition body otherwise) :
    otherwiseText (some node) = " else ".toList ++ blockText (statementText node) := by
  rw [otherwiseText]
  exact fun _ _ _ heq => h heq

theorem statementsText_cons {node : Node} {nodes : List Node} (hne : nodes ≠ []) :
    statementsText (node :: nodes) = statementText node ++ ';' :: statementsText nodes := by
  cases nodes with
  | nil => exact absurd rfl hne
  | cons next nodes => rw [statementsText]; simp

theorem statementsText_eq_intercalate (nodes : List Node) :
    statementsText nodes = [';'].intercalate (nodes.map statementText) := by
  induction nodes with
  | nil => rw [statementsText]; rfl
  | cons node nodes ih =>
    by_cases hlast : nodes = []
    · rw [hlast, statementsText, List.map_singleton, List.intercalate_singleton]
    · rw [statementsText_cons hlast, ih, List.map_cons,
        List.intercalate_cons_of_ne_nil (by simpa using hlast), List.append_assoc, List.singleton_append]

/-! ### Texts with a separator between them -/

theorem length_le_intercalate (separator : Char) (texts : List (List Char)) :
    texts.length ≤ ([separator].intercalate texts).length + 1 := by
  induction texts with
  | nil => exact Nat.zero_le _
  | cons text texts ih =>
    by_cases hlast : texts = []
    · simp [hlast]
    · rw [List.intercalate_cons_of_ne_nil hlast, List.append_assoc, List.singleton_append,
        List.length_append, List.length_cons, List.length_cons]
      omega

theorem length_le_intercalate_of_mem {separator text : List Char} {texts : List (List Char)}
    (h : text ∈ texts) : text.length ≤ (separator.intercalate texts).length := by
  induction texts with
  | nil => cases h
  | cons first texts ih =>
    by_cases hlast : texts = []
    · subst hlast
      exact Nat.le_of_eq (by rw [List.mem_singleton.1 h, List.intercalate_singleton])
    · rw [List.intercalate_cons_of_ne_nil hlast, List.length_append, List.length_append]
      rcases List.mem_cons.1 h with rfl | h
      · omega
      · have := ih h
        omega

/-- The text of a command line. -/
def render (node : Node) : String := String.ofList (statementText node)

end Language

end TwinShell
