import TwinShell.Proofs.Language.Consumption
import TwinShell.Proofs.Language.Yields

/-!
# What the parser can give

Expressions and statements share one type of nodes, but the parser keeps them apart: inside an expression there are only expressions, and its literals are truth values, numbers and texts. A statement stands where a statement or a value is read, never in the array that a loop goes through. The rules of the grammar are followed one by one, once and for all properties of expressions and of statements that a node has whenever its parts do; that expressions and statements are kept apart is the first of them.
-/

namespace TwinShell

def Listing.parts {α : Type} (listing : Listing α) : List α :=
  listing.path :: listing.filters.map (·.2)

def Creation.parts {α : Type} : Creation α → List α
  | .domain path color => [path, color]
  | .site path => [path]
  | .building path position rotation size => [path, position, rotation, size]
  | .room path position rotation size axis unit =>
    [path, position, rotation, size] ++ axis.toList ++ unit.toList
  | .rack path position rotation size => [path, position, rotation, size]
  | .device path position size side => [path, position, size] ++ side.toList
  | .group path children => path :: children
  | .corridor path leftRack rightRack temperature => [path, leftRack, rightRack, temperature]
  | .tag slug color => [slug, color]
  | .orphan path template => [path, template]

def UiCommand.parts {α : Type} : UiCommand α → List α
  | .delay seconds => [seconds]
  | .toggle _ enable => [enable]
  | .highlight path => [path]
  | .clearCache => []

def CameraCommand.parts {α : Type} : CameraCommand α → List α
  | .go _ position rotation => [position, rotation]
  | .wait seconds => [seconds]

namespace Node

/-- The nodes directly inside a node. -/
def parts : Node → List Node
  | .nop | .literal _ | .symbol _ | .callAlias _ | .unsetVariable _ | .unsetAlias _ | .length _
  | .showSettings | .printDir | .clearSelection | .printSelection | .deleteSelection | .disconnect
  | .manual _ | .showPeers | .clearScreen | .exit => []
  | .element _ node | .path node | .negate node | .not node | .assign _ node | .defineAlias _ node
  | .print node | .setSetting _ node | .changeDir node | .get node | .select node | .delete node
  | .drawable node _ | .runScript node | .checkScript node | .loadTemplate node => [node]
  | .array nodes | .interpolation _ nodes | .sequence nodes | .selectMany nodes => nodes
  | .formatted template args => template :: args
  | .binary _ left right => [left, right]
  | .unsetAttribute target _ index => target :: index.toList
  | .conditional condition body otherwise => condition :: body :: otherwise.toList
  | .whileLoop condition body => [condition, body]
  | .forLoop init condition step body => [init, condition, step, body]
  | .forRange _ first last body => [first, last, body]
  | .forEach _ items body => [items, body]
  | .list listing => listing.parts
  | .tree target depth => target :: depth.toList
  | .getUnit target unit => [target, unit]
  | .getSlot target slot => [target, slot]
  | .create creation => creation.parts
  | .update target _ values _ => target :: values
  | .link source dest slot => source :: dest :: slot.toList
  | .unlink source dest => source :: dest.toList
  | .copy source dest => [source, dest]
  | .draw target depth _ => target :: depth.toList
  | .undraw node | .focus node | .connect node => node.toList
  | .ui command => command.parts
  | .camera command => command.parts

/-- Whether a node itself has the form of an expression. The literals of an expression are truth values, numbers and texts. -/
def isExpression : Node → Bool
  | .literal (.bool _) | .literal (.int _) | .literal (.float _) | .literal (.str _) => true
  | .symbol _ | .element .. | .array _ | .interpolation .. | .formatted .. | .path _ | .binary ..
  | .negate _ | .not _ => true
  | _ => false

/-- What a loop over the items of an array goes through. -/
def items? : Node → Option Node
  | .forEach _ items _ => some items
  | _ => none

/-- The name that a node carries: that of a variable or of an alias. -/
def name? : Node → Option String
  | .symbol name | .element name _ | .assign name _ | .defineAlias name _ | .callAlias name
  | .length name | .forRange name .. | .forEach name .. => some name
  | _ => none

/-- Whether a node is a statement that is only put together of its parts: no expression, no list, no loop over an array, and without a name. -/
def isOrdinary (node : Node) : Bool :=
  !node.isExpression && !node.isSequence && node.items?.isNone && node.name?.isNone

/-- An expression all the way down. -/
inductive Plain : Node → Prop
  | intro {node : Node} (alone : node.isExpression) (parts : ∀ part ∈ node.parts, part.Plain) :
    node.Plain

/-- An expression, or a statement with only such nodes inside it, where a loop goes through the items of an expression. -/
inductive Parsed : Node → Prop
  | expression {node : Node} (h : node.Plain) : node.Parsed
  | statement {node : Node} (alone : node.isExpression = false) (items : ∀ array ∈ node.items?, array.Plain)
    (parts : ∀ part ∈ node.parts, part.Parsed) : node.Parsed

variable {node : Node}

theorem Plain.alone (h : node.Plain) : node.isExpression := by
  cases h with
  | intro alone _ => exact alone

theorem Plain.part {part : Node} (h : node.Plain) (hpart : part ∈ node.parts) : part.Plain := by
  cases h with
  | intro _ parts => exact parts part hpart

theorem Parsed.part {part : Node} (h : node.Parsed) (hpart : part ∈ node.parts) : part.Parsed := by
  cases h with
  | expression h => exact .expression (h.part hpart)
  | statement _ _ parts => exact parts part hpart

theorem Parsed.plain (h : node.Parsed) (halone : node.isExpression) : node.Plain := by
  cases h with
  | expression h => exact h
  | statement alone _ _ => exact absurd halone (by simp [alone])

theorem Parsed.items {array : Node} (h : node.Parsed) (harray : array ∈ node.items?) : array.Plain := by
  cases h with
  | expression h =>
    obtain ⟨halone, -⟩ := h
    cases node with
    | forEach => cases halone
    | _ => cases harray
  | statement _ items _ => exact items array harray

theorem plain_text (s : String) : (text s).Plain := .intro rfl nofun

theorem plain_path (h : node.Plain) : (path node).Plain := .intro rfl (List.forall_mem_singleton.2 h)

theorem parsed_literalPath (s : String) : (literalPath s).Parsed :=
  .expression (plain_path (plain_text s))

end Node

namespace Language

open Node (Plain Parsed)

/-- A property of the expressions and one of the statements that are read, which a node has whenever its parts do. Names are known to be names, and what is between the semicolons of a list to be single statements. -/
structure Inherited (E S : Node → Prop) : Prop where
  expression {node : Node} (alone : node.isExpression) (named : ∀ name ∈ node.name?, IsName name)
    (parts : ∀ part ∈ node.parts, E part) : E node
  lift {node : Node} (h : E node) : S node
  statement {node : Node} (alone : node.isExpression = false) (single : node.isSequence = false)
    (named : ∀ name ∈ node.name?, IsName name) (items : ∀ array ∈ node.items?, E array)
    (parts : ∀ part ∈ node.parts, S part) : S node
  sequence {nodes : List Node} (two : 2 ≤ nodes.length) (single : ∀ node ∈ nodes, node.isSingle)
    (parts : ∀ node ∈ nodes, S node) : S (.sequence nodes)

/-- A node with a property that is no list of statements. -/
structure One (S : Node → Prop) (node : Node) : Prop where
  holds : S node
  single : node.isSequence = false

theorem One.isSingle {S : Node → Prop} {node : Node} (h : One S node) (hsome : node ≠ .nop) :
    node.isSingle := by
  cases node with
  | nop => exact absurd rfl hsome
  | sequence nodes => cases h.single
  | _ => rfl

namespace Inherited

variable {E S : Node → Prop} (h : Inherited E S) {node : Node}
include h

/-- Expressions that carry no name. -/
theorem nameless (halone : node.isExpression) (hname : node.name? = none)
    (hparts : ∀ part ∈ node.parts, E part) : E node :=
  h.expression halone (by simp [hname]) hparts

theorem text (s : String) : E (Node.text s) := h.nameless rfl rfl nofun

theorem path (hnode : E node) : E (.path node) := h.nameless rfl rfl (List.forall_mem_singleton.2 hnode)

theorem literalPath (s : String) : S (Node.literalPath s) := h.lift (h.path (h.text s))

/-- Statements that carry a name, but for the loop over the items of an array. -/
theorem named {name : String} (halone : node.isExpression = false) (hsingle : node.isSequence = false)
    (hitems : node.items? = none) (hname : node.name? = some name) (hisName : IsName name)
    (hparts : ∀ part ∈ node.parts, S part) : One S node :=
  ⟨h.statement halone hsingle (by simpa [hname] using hisName) (by simp [hitems]) hparts, hsingle⟩

/-- Statements that are only put together of their parts. -/
theorem ordinary (hnode : node.isOrdinary) (hparts : ∀ part ∈ node.parts, S part) : One S node := by
  obtain ⟨⟨⟨halone, hsingle⟩, hitems⟩, hname⟩ : ((node.isExpression = false ∧ node.isSequence = false) ∧
      node.items? = none) ∧ node.name? = none := by
    simpa [Node.isOrdinary] using hnode
  exact ⟨h.statement halone hsingle (by simp [hname]) (by simp [hitems]) hparts, hsingle⟩

theorem alone (hnode : node.isOrdinary) (hparts : node.parts = []) : One S node :=
  h.ordinary hnode (hparts ▸ List.forall_mem_nil _)

theorem one {part : Node} (hnode : node.isOrdinary) (hparts : node.parts = [part]) (hpart : S part) :
    One S node :=
  h.ordinary hnode (hparts ▸ List.forall_mem_singleton.2 hpart)

theorem two {first second : Node} (hnode : node.isOrdinary) (hparts : node.parts = [first, second])
    (hfirst : S first) (hsecond : S second) : One S node :=
  h.ordinary hnode (hparts ▸ List.forall_mem_cons.2 ⟨hfirst, List.forall_mem_singleton.2 hsecond⟩)

end Inherited

/-- The parsers for nested parts give expressions and statements with inherited properties. -/
structure Grammar.Sound (E S : Node → Prop) (g : Grammar) : Prop extends Inherited E S where
  gives_expression : Yields E g.expression
  gives_binary (level : Nat) : Yields E (g.binary level)
  gives_unary : Yields E g.unary
  gives_statement : Yields S g.statement
  gives_statements : Yields S g.statements

section Rules

variable {E S : Node → Prop} {g : Grammar} (hg : g.Sound E S)
include hg

/-! ### Expressions and text -/

theorem yields_textPieces (mode : TextMode) (fuel : Nat) {pieces : Parser.TextPieces}
    (hpieces : ∀ arg ∈ pieces.args, E arg) :
    Yields (fun pieces : Parser.TextPieces => ∀ arg ∈ pieces.args, E arg)
      (Parser.textPieces g mode fuel pieces) := by
  have hadd : ∀ {pieces : Parser.TextPieces} {node : Node}, (∀ arg ∈ pieces.args, E arg) →
      E node → ∀ arg ∈ (pieces.addValue node).args, E arg := fun hargs hnode =>
    List.forall_mem_cons.2 ⟨hnode, hargs⟩
  induction fuel generalizing pieces with
  | zero => exact .exhausted
  | succ fuel ih =>
    refine (Yields.reading fun _ => Cursor.named_token mode).bind fun token htoken => ?_
    split
    · exact ih hpieces
    · exact ih (hadd hpieces (hg.expression rfl (by rintro _ ⟨⟩; exact htoken _ ‹_›) nofun))
    · exact hg.gives_expression.bind fun node hnode => .next fun _ => ih (hadd hpieces hnode)
    · exact .pure hpieces

theorem holds_toNode {pieces : Parser.TextPieces} (h : ∀ arg ∈ pieces.args, E arg) (trim : Bool) :
    E (pieces.toNode trim) := by
  unfold Parser.TextPieces.toNode
  extract_lets finish
  split
  · exact hg.text _
  · refine hg.nameless rfl rfl fun arg harg => h arg ?_
    exact List.mem_reverse.1 harg

theorem yields_textNode (mode : TextMode) (trim : Bool) : Yields E (Parser.textNode g mode trim) :=
  .next fun _ => (yields_textPieces hg mode _ (List.forall_mem_nil _)).bind fun _ hpieces =>
    .pure (holds_toNode hg hpieces trim)

theorem yields_path (name : String) : Yields E (Parser.path g name) := by
  refine .traced (.next fun _ => (yields_textNode hg _ _).bind fun text htext => ?_)
  exact .next fun _ => .pure (hg.path htext)

theorem yields_pathItems (fuel : Nat) {paths : List Node} (hpaths : ∀ path ∈ paths, E path) :
    Yields (fun paths => ∀ path ∈ paths, E path) (Parser.pathItems g fuel paths) := by
  induction fuel generalizing paths with
  | zero => exact .exhausted
  | succ fuel ih =>
    refine .next fun _ => (yields_path hg _).bind fun item hitem => ?_
    have hitems : ∀ path ∈ item :: paths, E path := List.forall_mem_cons.2 ⟨hitem, hpaths⟩
    refine .next fun _ => .next fun _ => .ite (.pure ?_) (.next fun _ => .ite (ih hitems) (.fail _))
    exact fun path hpath => hitems path (List.mem_reverse.1 hpath)

theorem yields_pathGroup : Yields (fun paths => ∀ path ∈ paths, E path) (Parser.pathGroup g) := by
  refine .traced (.next fun _ => .next fun _ => .next fun _ => ?_)
  exact (yields_pathItems hg _ (List.forall_mem_nil _)).bind fun _ hpaths => .next fun _ => .pure hpaths

theorem yields_string (name : String) : Yields E (Parser.string g name) := by
  refine .traced (.next fun _ => .next fun _ => .ite hg.gives_expression ?_)
  exact (yields_textNode hg _ _).bind fun _ hnode => .next fun _ => .pure hnode

theorem holds_valueNode {node : Node} (h : E node) (chars : List Char) :
    E (Parser.valueNode node chars) := by
  unfold Parser.valueNode
  split
  · extract_lets raw
    split
    · exact hg.text _
    · exact h
  · exact h

theorem yields_value : Yields S (Parser.value g) := by
  have hexpression := hg.gives_expression.imp fun _ => hg.lift
  have hstring := (yields_string hg "").imp fun _ => hg.lift
  refine .traced (.next fun _ => .next fun _ => .ite hexpression (.next fun _ => .ite hexpression ?_))
  refine .next fun _ => .ite ?_ ?_
  · exact .next fun _ => hg.gives_statements.bind fun _ hnode => .next fun _ => .pure hnode
  · refine .next fun start => hg.gives_expression.attempt.bind fun found hfound => ?_
    split
    · rename_i node
      refine .next fun _ => .ite (.next fun _ => .pure ?_) (.next fun _ => hstring)
      exact hg.lift (holds_valueNode hg (hfound node rfl) _)
    · exact hstring

theorem yields_expressionItems (close : String) (fuel : Nat) {items : List Node}
    (hitems : ∀ item ∈ items, E item) :
    Yields (fun items => ∀ item ∈ items, E item) (Parser.expressionItems g close fuel items) := by
  induction fuel generalizing items with
  | zero => exact .exhausted
  | succ fuel ih =>
    refine hg.gives_expression.bind fun item hitem => ?_
    have hmore : ∀ node ∈ item :: items, E node := List.forall_mem_cons.2 ⟨hitem, hitems⟩
    refine .next fun _ => .ite (.pure ?_) (.next fun _ => .ite (ih hmore) (.fail _))
    exact fun node hnode => hmore node (List.mem_reverse.1 hnode)

theorem yields_expressionList (close : String) :
    Yields (fun items => ∀ item ∈ items, E item) (Parser.expressionList g close) := by
  refine .traced (.next fun _ => .next fun _ => .ite (.pure nofun) (.next fun _ => ?_))
  exact yields_expressionItems hg close _ (List.forall_mem_nil _)

theorem yields_arrayItems (fuel : Nat) {items : List Node} (hitems : ∀ item ∈ items, E item) :
    Yields (fun items => ∀ item ∈ items, E item) (Parser.arrayItems g fuel items) := by
  induction fuel generalizing items with
  | zero => exact .exhausted
  | succ fuel ih =>
    refine hg.gives_expression.traced.bind fun item hitem => .next fun next => ?_
    have hmore : ∀ node ∈ item :: items, E node := List.forall_mem_cons.2 ⟨hitem, hitems⟩
    split
    · exact .pure fun node hnode => hmore node (List.mem_reverse.1 hnode)
    · exact ih hmore
    · exact .failAt _ _

theorem yields_array : Yields E (Parser.array g) := by
  refine .next fun start => .next fun token => ?_
  split
  · exact .pure (hg.nameless rfl rfl nofun)
  · refine .next fun _ => .next fun _ => ?_
    exact (yields_arrayItems hg _ (List.forall_mem_nil _)).bind fun _ hitems => .pure (hg.nameless rfl rfl hitems)

theorem yields_afterReference {name : String} (hname : IsName name) :
    Yields E (Parser.afterReference g name) := by
  refine .next fun start => .next fun token => ?_
  split
  · refine hg.gives_expression.traced.bind fun index hindex => .next fun close => ?_
    split
    · exact .pure (hg.expression rfl (by rintro _ ⟨⟩; exact hname) (List.forall_mem_singleton.2 hindex))
    · exact .fail _
  · exact .next fun _ => .pure (hg.expression rfl (by rintro _ ⟨⟩; exact hname) nofun)

theorem yields_primary : Yields E (Parser.primary g) := by
  refine (Yields.reading fun _ => Cursor.named_expressionToken).bind fun token htoken => ?_
  cases hkind : token.kind with
  | bool | int | float => exact .pure (hg.nameless rfl rfl (List.forall_mem_nil _))
  | quote => exact (yields_textNode hg _ _).bind fun _ hnode => .next fun _ => .pure hnode
  | reference name => exact yields_afterReference hg (htoken name hkind)
  | leftEval => exact hg.gives_expression.bind fun _ hnode => .next fun _ => .pure hnode
  | leftParen =>
    refine hg.gives_expression.bind fun node hnode => .next fun close => ?_
    split
    · exact .pure hnode
    · exact .failAt _ _
  | leftBracket => exact yields_array hg
  | format =>
    refine .next fun _ => .next fun _ => (yields_expressionList hg _).bind fun items hitems => ?_
    split
    · exact .pure (hg.nameless rfl rfl hitems)
    · exact .fail _
  | _ => exact .failAt _ _

theorem yields_unary : Yields E (Parser.unary g) := by
  refine .next fun start => .next fun token => ?_
  split
  · exact hg.gives_unary
  · exact hg.gives_unary.bind fun _ hnode => .pure (hg.nameless rfl rfl (List.forall_mem_singleton.2 hnode))
  · exact hg.gives_unary.bind fun _ hnode => .pure (hg.nameless rfl rfl (List.forall_mem_singleton.2 hnode))
  · exact .next fun _ => yields_primary hg

theorem yields_binaryTail (level fuel : Nat) {left : Node} (hleft : E left) :
    Yields E (Parser.binaryTail g level fuel left) := by
  induction fuel generalizing left with
  | zero => exact .exhausted
  | succ fuel ih =>
    refine .next fun start => .next fun token => ?_
    split
    · refine .ite ((hg.gives_binary _).bind fun right hright => ih (hg.nameless rfl rfl ?_)) (.next fun _ => .pure hleft)
      exact List.forall_mem_cons.2 ⟨hleft, List.forall_mem_singleton.2 hright⟩
    · exact .next fun _ => .pure hleft

theorem yields_binary (level : Nat) : Yields E (Parser.binary g level) :=
  (yields_unary hg).bind fun _ hleft => .next fun _ => yields_binaryTail hg level _ hleft

theorem yields_expression : Yields E (Parser.expression g) :=
  (yields_binary hg 1).bind fun _ hnode => .next fun _ => .pure hnode

/-! ### Parts of commands -/

theorem yields_pathPart (name : String) : Yields S (Parser.path g name) :=
  (yields_path hg name).imp fun _ => hg.lift

theorem yields_stringPart (name : String) : Yields S (Parser.string g name) :=
  (yields_string hg name).imp fun _ => hg.lift

theorem yields_expressionPart (name : String) : Yields S (Parser.traced name g.expression) :=
  hg.gives_expression.traced.imp fun _ => hg.lift

theorem yields_body : Yields S (Parser.body g) := by
  refine .traced (.next fun _ => .next fun _ => hg.gives_statements.bind fun _ hnode => ?_)
  exact .next fun _ => .next fun _ => .pure hnode

theorem yields_optionalPath :
    Yields (fun path => ∀ node ∈ path.toList, S node) (Parser.optionalPath g) := by
  refine .next fun _ => .ite (.pure nofun) ((yields_pathPart hg _).bind fun _ hpath => .pure ?_)
  exact List.forall_mem_singleton.2 hpath

theorem yields_optionalExpression (name : String) :
    Yields (fun node => ∀ part ∈ node.toList, S part) (Parser.optionalExpression g name) := by
  refine .next fun _ => .ite (.pure nofun) ((yields_expressionPart hg _).bind fun _ hnode => .pure ?_)
  exact List.forall_mem_singleton.2 hnode

theorem yields_optionalValue :
    Yields (fun node => ∀ part ∈ node.toList, S part) (Parser.optionalValue g) := by
  refine .next fun _ => .next fun _ => .ite ((yields_value hg).bind fun _ hnode => .pure ?_) (.pure nofun)
  exact List.forall_mem_singleton.2 hnode

theorem yields_listFilters (fuel : Nat) {filters : List (String × Node)}
    (hfilters : ∀ filter ∈ filters, S filter.2) :
    Yields (fun filters => ∀ filter ∈ filters, S filter.2) (Parser.listFilters g fuel filters) := by
  induction fuel generalizing filters with
  | zero => exact .exhausted
  | succ fuel ih =>
    refine .next fun _ => .ite (.pure ?_) (.next fun key => .ite (.fail _) (.next fun _ => ?_))
    · exact fun filter hfilter => hfilters filter (List.mem_reverse.1 hfilter)
    · refine (yields_textNode hg _ _).bind fun pattern hpattern => ih ?_
      exact List.forall_mem_cons.2 ⟨hg.lift hpattern, hfilters⟩

/-! ### Commands -/

theorem yields_listing (category : Option Kind) : Yields (One S) (Parser.listing g category) := by
  refine .next fun options => .next fun start => .next fun word => .next fun filtersOnly => ?_
  refine .next fun _ => ?_
  extract_lets afterPath afterHere
  have hpath : ∀ path, S path → Yields (One S) (afterPath path) := by
    intro path hpath
    refine .next fun _ => (yields_listFilters hg _ (List.forall_mem_nil _)).bind fun filters hfilters => ?_
    refine .pure (hg.ordinary rfl (List.forall_mem_cons.2 ⟨hpath, fun part hpart => ?_⟩))
    obtain ⟨filter, hfilter, rfl⟩ := List.mem_map.1 hpart
    exact hfilters filter hfilter
  have hhere : ∀ here, Yields (One S) (afterHere here) := fun here =>
    .ite (.bind (.pure (hg.literalPath ".")) hpath) ((yields_pathPart hg _).bind hpath)
  exact .ite (.next hhere) (.next hhere)

theorem yields_unset : Yields (One S) (Parser.unset g) := by
  refine .next fun options => ?_
  split
  · exact .pure (hg.alone rfl rfl)
  · exact .pure (hg.alone rfl rfl)
  · refine (yields_pathPart hg _).bind fun path hpath => .next fun _ => .next fun key => ?_
    refine .ite (.fail _) (.next fun _ => .ite ?_ (.pure ?_))
    · refine (yields_expressionPart hg _).bind fun index hindex => .next fun _ => .pure ?_
      exact hg.two rfl rfl hpath hindex
    · exact hg.one rfl rfl hpath

theorem yields_env : Yields (One S) (Parser.env g) := by
  refine .next fun _ => .ite (.pure (hg.alone rfl rfl)) (.next fun _ => .next fun _ => ?_)
  refine (yields_value hg).bind fun _ hvalue => .pure ?_
  exact hg.one rfl rfl hvalue

theorem yields_printfItems (fuel : Nat) {items : List Node} (hitems : ∀ item ∈ items, E item) :
    Yields (fun items => ∀ item ∈ items, E item) (Parser.printfItems g fuel items) := by
  induction fuel generalizing items with
  | zero => exact .exhausted
  | succ fuel ih =>
    refine hg.gives_expression.bind fun item hitem => ?_
    have hmore : ∀ node ∈ item :: items, E node := List.forall_mem_cons.2 ⟨hitem, hitems⟩
    exact .next fun _ => .ite (ih hmore) (.pure fun node hnode => hmore node (List.mem_reverse.1 hnode))

theorem yields_printf : Yields (One S) (Parser.printf g) := by
  refine .next fun _ => (yields_printfItems hg _ (List.forall_mem_nil _)).bind fun items hitems => ?_
  split
  · refine .pure (hg.ordinary rfl (List.forall_mem_singleton.2 ?_))
    exact hg.lift (hg.nameless rfl rfl hitems)
  · exact .fail _

theorem yields_conditional (fuel : Nat) : Yields (One S) (Parser.conditional g fuel) := by
  induction fuel with
  | zero => exact .exhausted
  | succ fuel ih =>
    refine (yields_expressionPart hg _).bind fun condition hcondition => ?_
    refine (yields_body hg).bind fun body hbody => .next fun _ => .next fun _ => ?_
    have hwhole : ∀ otherwise : Option Node, (∀ node ∈ otherwise.toList, S node) →
        One S (.conditional condition body otherwise) := fun otherwise hotherwise =>
      hg.ordinary rfl
        (List.forall_mem_cons.2 ⟨hcondition, List.forall_mem_cons.2 ⟨hbody, hotherwise⟩⟩)
    refine .ite (ih.traced.bind fun rest hrest => .pure (hwhole (some rest) ?_)) (.next fun _ => ?_)
    · exact List.forall_mem_singleton.2 hrest.holds
    · refine .ite ((yields_body hg).bind fun other hother => .pure (hwhole (some other) ?_)) ?_
      · exact List.forall_mem_singleton.2 hother
      · exact .pure (hwhole none nofun)

theorem yields_countedLoop : Yields (One S) (Parser.countedLoop g) := by
  refine hg.gives_statement.bind fun init hinit => .next fun _ => .next fun _ => ?_
  refine (yields_expressionPart hg _).bind fun condition hcondition => .next fun _ => ?_
  refine hg.gives_statement.bind fun step hstep => .next fun _ => .next fun _ => ?_
  refine (yields_body hg).bind fun body hbody => .pure (hg.ordinary rfl ?_)
  simp only [Node.parts, List.forall_mem_cons]
  exact ⟨hinit, hcondition, hstep, hbody, nofun⟩

theorem yields_forLoop : Yields (One S) (Parser.forLoop g) := by
  refine .next fun _ => .next fun _ => .ite (yields_countedLoop hg) ?_
  refine yields_simpleWord.traced.bind fun name hname => .dite (fun _ => .fail _) fun hne => ?_
  refine .next fun _ => .ite (.next fun _ => .ite (.fail _) ?_) (.fail _)
  refine hg.gives_expression.bind fun first hfirst => .next fun _ => .ite ?_ ?_
  · refine (yields_expressionPart hg _).bind fun last hlast => (yields_body hg).bind fun body hbody => ?_
    refine .pure (hg.named rfl rfl rfl rfl (hname hne) ?_)
    simp only [Node.parts, List.forall_mem_cons]
    exact ⟨hg.lift hfirst, hlast, hbody, nofun⟩
  · refine (yields_body hg).bind fun body hbody => .pure ⟨hg.statement rfl rfl ?_ ?_ ?_, rfl⟩
    · rintro _ ⟨⟩
      exact hname hne
    · rintro _ ⟨⟩
      exact hfirst
    · exact List.forall_mem_cons.2 ⟨hg.lift hfirst, List.forall_mem_singleton.2 hbody⟩

theorem yields_select : Yields (One S) (Parser.select g) := by
  refine .next fun _ => .next fun _ => .ite ?_ ?_
  · refine (yields_pathGroup hg).bind fun paths hpaths => .pure (hg.ordinary rfl ?_)
    exact fun path hpath => hg.lift (hpaths path hpath)
  · refine (yields_optionalPath hg).bind fun path hpath => ?_
    split
    · exact .pure (hg.ordinary rfl hpath)
    · exact .pure (hg.alone rfl rfl)

theorem yields_delete : Yields (One S) (Parser.delete g) := by
  refine .next fun start => .next fun _ => .next fun _ => ?_
  refine .ite (.pure (hg.alone rfl rfl)) (.next fun _ => ?_)
  refine (yields_pathPart hg _).bind fun path hpath => .pure ?_
  exact hg.one rfl rfl hpath

theorem yields_threeValues : Yields (fun values => S values.1 ∧ S values.2.1 ∧ S values.2.2)
    (Parser.threeValues g) := by
  refine .next fun _ => (yields_value hg).bind fun first hfirst => ?_
  refine .next fun _ => (yields_value hg).bind fun second hsecond => ?_
  exact .next fun _ => (yields_value hg).bind fun third hthird => .pure ⟨hfirst, hsecond, hthird⟩

theorem yields_creation (creatable : Creatable) :
    Yields (fun creation => ∀ part ∈ creation.parts, S part) (Parser.creation g creatable) := by
  have hpath := yields_pathPart hg ""
  have hvalue := yields_value hg
  cases creatable with
  | orphan =>
    refine .next fun _ => .next fun found => ?_
    split
    · exact .fail _
    · refine .next fun _ => hpath.bind fun path hpath => .next fun _ => hvalue.bind fun value hvalue => ?_
      exact .pure (List.forall_mem_cons.2 ⟨hpath, List.forall_mem_singleton.2 hvalue⟩)
  | domain =>
    refine .next fun _ => hpath.bind fun path hpath => .next fun _ => hvalue.bind fun value hvalue => ?_
    exact .pure (List.forall_mem_cons.2 ⟨hpath, List.forall_mem_singleton.2 hvalue⟩)
  | site => exact .next fun _ => hpath.bind fun path hpath => .pure (List.forall_mem_singleton.2 hpath)
  | building | rack =>
    refine .next fun _ => hpath.bind fun path hpath => (yields_threeValues hg).bind fun values hvalues => ?_
    refine .pure ?_
    simp only [Creation.parts, List.forall_mem_cons]
    exact ⟨hpath, hvalues.1, hvalues.2.1, hvalues.2.2, nofun⟩
  | room =>
    refine .next fun _ => hpath.bind fun path hpath => (yields_threeValues hg).bind fun values hvalues => ?_
    have hwhole : ∀ axis unit : Option Node, (∀ node ∈ axis.toList, S node) →
        (∀ node ∈ unit.toList, S node) → ∀ part ∈
          (Creation.room path values.1 values.2.1 values.2.2 axis unit).parts, S part := by
      intro axis unit haxis hunit
      simp only [Creation.parts, List.forall_mem_append, List.forall_mem_cons]
      exact ⟨⟨⟨hpath, hvalues.1, hvalues.2.1, hvalues.2.2, nofun⟩, haxis⟩, hunit⟩
    refine (yields_optionalValue hg).bind fun axis haxis => ?_
    split
    · exact .pure (hwhole none none nofun nofun)
    · exact (yields_optionalValue hg).bind fun unit hunit => .pure (hwhole _ unit haxis hunit)
  | device =>
    refine .next fun _ => hpath.bind fun path hpath => .next fun _ => hvalue.bind fun position hposition => ?_
    refine .next fun _ => hvalue.bind fun size hsize => (yields_optionalValue hg).bind fun side hside => ?_
    refine .pure ?_
    simp only [Creation.parts, List.forall_mem_append, List.forall_mem_cons]
    exact ⟨⟨hpath, hposition, hsize, nofun⟩, hside⟩
  | corridor =>
    refine .next fun _ => hpath.bind fun path hpath => .next fun _ => .next fun start => ?_
    refine (yields_pathGroup hg).bind fun racks hracks => ?_
    split
    · refine .next fun _ => hvalue.bind fun temperature htemperature => .pure ?_
      simp only [List.forall_mem_cons] at hracks
      simp only [Creation.parts, List.forall_mem_cons]
      exact ⟨hpath, hg.lift hracks.1, hg.lift hracks.2.1, htemperature, nofun⟩
    · exact .failAt _ _
  | group =>
    refine .next fun _ => hpath.bind fun path hpath => .next fun _ => ?_
    refine (yields_pathGroup hg).bind fun children hchildren => .pure ?_
    exact List.forall_mem_cons.2 ⟨hpath, fun child hchild => hg.lift (hchildren child hchild)⟩
  | tag =>
    refine .next fun _ => (yields_stringPart hg _).bind fun slug hslug => .next fun _ => ?_
    refine hvalue.bind fun color hcolor => .pure ?_
    exact List.forall_mem_cons.2 ⟨hslug, List.forall_mem_singleton.2 hcolor⟩

theorem yields_create : Yields (One S) (Parser.create g) := by
  refine .next fun found => ?_
  split
  · exact .fail _
  · exact (yields_creation hg _).traced.bind fun _ hparts => .pure (hg.ordinary rfl hparts)

theorem yields_valueItems (fuel : Nat) {values : List Node} (hvalues : ∀ value ∈ values, S value) :
    Yields (fun values => ∀ value ∈ values, S value) (Parser.valueItems g fuel values) := by
  induction fuel generalizing values with
  | zero => exact .exhausted
  | succ fuel ih =>
    refine (yields_value hg).bind fun item hitem => .next fun _ => .next fun _ => ?_
    have hmore : ∀ node ∈ item :: values, S node := List.forall_mem_cons.2 ⟨hitem, hvalues⟩
    exact .ite (ih hmore) (.pure fun node hnode => hmore node (List.mem_reverse.1 hnode))

theorem yields_update : Yields (One S) (Parser.update g) := by
  refine .traced ((yields_pathPart hg _).bind fun path hpath => .next fun _ => .ite ?_ (.fail _))
  refine .next fun key => .ite (.fail _) (.next fun _ => .next fun _ => .next fun _ => .next fun _ => ?_)
  refine (yields_valueItems hg _ (List.forall_mem_nil _)).bind fun values hvalues => .pure ?_
  exact hg.ordinary rfl (List.forall_mem_cons.2 ⟨hpath, hvalues⟩)

theorem yields_link : Yields (One S) (Parser.link g) := by
  refine (yields_pathPart hg _).bind fun source hsource => .next fun _ => ?_
  refine (yields_pathPart hg _).bind fun dest hdest => (yields_optionalValue hg).bind fun slot hslot => ?_
  exact .pure (hg.ordinary rfl
    (List.forall_mem_cons.2 ⟨hsource, List.forall_mem_cons.2 ⟨hdest, hslot⟩⟩))

theorem yields_unlink : Yields (One S) (Parser.unlink g) := by
  refine (yields_pathPart hg _).bind fun source hsource => .next fun _ => .next fun _ => .ite ?_ ?_
  · refine (yields_pathPart hg _).bind fun dest hdest => .pure (hg.ordinary rfl ?_)
    exact List.forall_mem_cons.2 ⟨hsource, List.forall_mem_singleton.2 hdest⟩
  · exact .pure (hg.one rfl rfl hsource)

theorem holds_getD {path : Option Node} (h : ∀ node ∈ path.toList, S node) (s : String) :
    S (path.getD (Node.literalPath s)) := by
  cases path with
  | none => exact hg.literalPath s
  | some path => exact h path List.mem_cons_self

theorem yields_draw : Yields (One S) (Parser.draw g) := by
  refine .next fun options => (yields_optionalPath hg).bind fun path hpath => ?_
  refine (yields_optionalExpression hg _).bind fun depth hdepth => .pure ?_
  exact hg.ordinary rfl (List.forall_mem_cons.2 ⟨holds_getD hg hpath ".", hdepth⟩)

theorem yields_ui : Yields (One S) (Parser.ui g) := by
  refine .next fun found => ?_
  split
  · exact .fail _
  · exact .pure (hg.alone rfl rfl)
  · refine .next fun _ => .next fun _ => (yields_expressionPart hg _).bind fun _ hnode => .pure ?_
    exact hg.one rfl rfl hnode
  · refine .next fun _ => .next fun _ => (yields_pathPart hg _).bind fun _ hnode => .pure ?_
    exact hg.one rfl rfl hnode
  · refine .next fun _ => .next fun _ => (yields_expressionPart hg _).bind fun _ hnode => .pure ?_
    exact hg.one rfl rfl hnode

theorem yields_camera : Yields (One S) (Parser.camera g) := by
  refine .next fun found => ?_
  split
  · exact .fail _
  · refine .next fun _ => .next fun _ => (yields_expressionPart hg _).bind fun _ hnode => .pure ?_
    exact hg.one rfl rfl hnode
  · refine .next fun _ => .next fun _ => (yields_expressionPart hg _).bind fun position hposition => ?_
    refine .next fun _ => (yields_expressionPart hg _).bind fun rotation hrotation => .pure ?_
    exact hg.two rfl rfl hposition hrotation

theorem yields_manual : Yields (One S) Parser.manual := by
  refine .next fun _ => .ite (.pure (hg.alone rfl rfl)) ?_
  exact .next fun _ => .next fun _ => .next fun _ => .pure (hg.alone rfl rfl)

theorem yields_afterKeyword (keyword : Keyword) : Yields (One S) (Parser.afterKeyword g keyword) := by
  have hpath (name : String) := yields_pathPart hg name
  have hstring (name : String) := yields_stringPart hg name
  have hexpression (name : String) := yields_expressionPart hg name
  cases keyword with
  | list category => exact yields_listing hg category
  | get => exact (hpath _).bind fun _ h => .pure (hg.one rfl rfl h)
  | getUnit =>
    refine (hpath _).bind fun path hpath => (hexpression _).bind fun unit hunit => .pure ?_
    exact hg.two rfl rfl hpath hunit
  | getSlot =>
    refine (hpath _).bind fun path hpath => (yields_value hg).bind fun slot hslot => .pure ?_
    exact hg.two rfl rfl hpath hslot
  | undraw | focus =>
    exact (yields_optionalPath hg).bind fun _ hpath => .pure (hg.ordinary rfl hpath)
  | draw => exact yields_draw hg
  | drawable =>
    refine (hpath _).bind fun path hpath => .next fun _ => .ite (.pure (hg.one rfl rfl hpath)) ?_
    exact .next fun _ => .pure (hg.one rfl rfl hpath)
  | unset => exact yields_unset hg
  | env => exact yields_env hg
  | create => exact yields_create hg
  | delete => exact yields_delete hg
  | select => exact yields_select hg
  | assign =>
    refine yields_variableName.bind fun name hname => .next fun _ => ?_
    refine (yields_value hg).bind fun _ h => .pure ?_
    exact hg.named rfl rfl rfl rfl hname (List.forall_mem_singleton.2 h)
  | runScript | checkScript | loadTemplate | print =>
    exact (hstring _).bind fun _ h => .pure (hg.one rfl rfl h)
  | length => exact yields_variableName.bind fun _ h => .pure (hg.named rfl rfl rfl rfl h nofun)
  | link => exact yields_link hg
  | unlink => exact yields_unlink hg
  | copy =>
    refine (hpath _).bind fun source hsource => (hstring _).bind fun dest hdest => .pure ?_
    exact hg.two rfl rfl hsource hdest
  | printf => exact yields_printf hg
  | manual => exact yields_manual hg
  | changeDir =>
    exact (yields_optionalPath hg).bind fun _ h => .pure (hg.one rfl rfl (holds_getD hg h "/"))
  | tree =>
    refine (yields_optionalPath hg).bind fun path hpath => ?_
    refine (yields_optionalExpression hg _).bind fun depth hdepth => .pure ?_
    exact hg.ordinary rfl (List.forall_mem_cons.2 ⟨holds_getD hg hpath ".", hdepth⟩)
  | ui => exact yields_ui hg
  | camera => exact yields_camera hg
  | whileLoop =>
    refine (hexpression _).bind fun condition hcondition => (yields_body hg).bind fun body hbody => .pure ?_
    exact hg.two rfl rfl hcondition hbody
  | forLoop => exact yields_forLoop hg
  | conditional => exact .next fun _ => yields_conditional hg _
  | defineAlias =>
    refine yields_simpleWord.traced.bind fun name hname => .dite (fun _ => .fail _) fun hne => ?_
    refine (yields_body hg).bind fun _ h => .pure ?_
    exact hg.named rfl rfl rfl rfl (hname hne) (List.forall_mem_singleton.2 h)
  | connect =>
    refine .next fun _ => .ite (.pure (hg.alone rfl rfl)) ?_
    exact (hstring _).bind fun _ h => .pure (hg.one rfl rfl h)
  | printSelection | clearScreen | showPeers | printDir | exit | disconnect =>
    exact .pure (hg.alone rfl rfl)

theorem yields_statement : Yields (One S) (Parser.statement g) := by
  refine .traced (.next fun _ => .ite (.pure (hg.alone rfl rfl)) ?_)
  refine .next fun start => .next fun found => ?_
  split
  · exact .next fun _ => .ite (.failAt _ _) (yields_afterKeyword hg _).traced
  · refine yields_simpleWord.bind fun name hname => ?_
    extract_lets afterName
    have hupdate : Yields (One S) (afterName false) := .next fun _ => yields_update hg
    refine .dite (fun _ => hupdate) fun hne => ?_
    refine .next fun ends => .dite (fun _ => .pure ?_) fun _ => .next fun _ => yields_update hg
    exact hg.named rfl rfl rfl rfl (hname hne) nofun

theorem yields_statementItems (fuel : Nat) {nodes : List Node}
    (hnodes : ∀ node ∈ nodes, node.isSingle ∧ S node) :
    Yields (fun nodes => ∀ node ∈ nodes, node.isSingle ∧ S node) (Parser.statementItems g fuel nodes) := by
  induction fuel generalizing nodes with
  | zero => exact .exhausted
  | succ fuel ih =>
    refine (yields_statement hg).bind fun node hnode => ?_
    extract_lets nodes'
    have hnodes' : ∀ node ∈ nodes', node.isSingle ∧ S node := by
      unfold nodes'
      split
      · exact hnodes
      · rename_i hsome
        exact List.forall_mem_cons.2 ⟨⟨hnode.isSingle hsome, hnode.holds⟩, hnodes⟩
    refine .next fun _ => .next fun _ => .ite (ih hnodes') (.pure fun node hnode => ?_)
    exact hnodes' node (List.mem_reverse.1 hnode)

theorem yields_statements : Yields S (Parser.statements g) := by
  refine .next fun _ => (yields_statementItems hg _ (List.forall_mem_nil _)).bind fun nodes hnodes => .pure ?_
  match nodes, hnodes with
  | [], _ =>
    have hnop : One S .nop := hg.alone rfl rfl
    exact hnop.holds
  | [node], hnodes => exact (hnodes node List.mem_cons_self).2
  | first :: second :: others, hnodes =>
    refine hg.sequence (Nat.le_add_left 2 others.length) ?_ ?_
    · exact fun node hnode => (hnodes node hnode).1
    · exact fun node hnode => (hnodes node hnode).2

end Rules

/-- What is read between semicolons are single statements, whatever the parsers for nested parts give. -/
theorem isSingle_statementItems (g : Grammar) (fuel : Nat) :
    Yields (fun nodes => ∀ node ∈ nodes, node.isSingle) (Parser.statementItems g fuel []) := by
  have hany : Inherited (fun _ => True) fun _ => True :=
    ⟨fun _ _ _ => trivial, id, fun _ _ _ _ _ => trivial, fun _ _ _ => trivial⟩
  have hsound : g.Sound (fun _ => True) fun _ => True := by
    refine ⟨hany, ?_, fun _ => ?_, ?_, ?_, ?_⟩ <;> exact fun _ _ _ _ _ => trivial
  have hitems := yields_statementItems hsound fuel (List.forall_mem_nil _)
  exact hitems.imp fun _ hnodes node hnode => (hnodes node hnode).1

theorem Inherited.sound_ofDepth {E S : Node → Prop} (h : Inherited E S) (depth : Nat) :
    (Grammar.ofDepth depth).Sound E S := by
  induction depth with
  | zero => exact ⟨h, .exhausted, fun _ => .exhausted, .exhausted, .exhausted, .exhausted⟩
  | succ depth ih =>
    exact ⟨h, yields_expression ih, yields_binary ih, yields_unary ih,
      (yields_statement ih).imp fun _ => One.holds, yields_statements ih⟩

/-- Every line that is accepted is read as a node with the inherited property of statements. -/
theorem Inherited.of_parse {E S : Node → Prop} (hi : Inherited E S) {line : String} {node : Node}
    (h : parse line = .ok node) : S node := by
  obtain ⟨c, hreads, -⟩ := parse_eq_ok_iff.1 h
  exact (hi.sound_ofDepth _).gives_statements _ _ _ _ hreads

theorem inherited_parsed : Inherited Plain Parsed where
  expression alone _ parts := .intro alone parts
  lift := .expression
  statement alone _ _ items parts := .statement alone items parts
  sequence _ _ parts := .statement rfl nofun parts

/-- Every line that is accepted is read as a statement in which expressions and statements are kept apart. -/
theorem parsed_of_parse {line : String} {node : Node} (h : parse line = .ok node) : node.Parsed :=
  inherited_parsed.of_parse h

end Language

end TwinShell
