import TwinShell.Language.Keyword
import TwinShell.Language.Parser.Expression

/-!
# Reading commands

A command starts with a keyword, or is the name of an alias, or updates an attribute of an object. The rules of this module and of `Language/Parser/Expression` are put together in `Grammar.ofDepth`. Whatever is nested one level deeper stands behind at least one character, so a line with `n` characters never needs more than `n + 1` levels.
-/

namespace TwinShell.Language

namespace Parser

/-- Reads the value of an option: a quoted text, or words joined by colons. -/
def optionWords : Nat → List String → Parser (List String)
  | 0, _ => exhausted
  | fuel + 1, words => do
    let word ← complexWord
    if ← tryExact ":" then optionWords fuel (word :: words) else return (word :: words).reverse

def optionValue : Parser String :=
  traced "argument value" do
    skipSpaces
    if ← tryExact "\"" then
      let first ← cursor
      move (·.skipWhile (· != '"'))
      let last ← cursor
      expect "\""
      skipSpaces
      return first.textSince last
    else
      let fuel ← look (·.rest.length + 1)
      let words ← optionWords fuel []
      if words.all (· = "") then fail (.expected "argument value")
      else return ":".intercalate words

/-- Reads options from the cursor on; `options` holds those read before. -/
def optionItems (withValue flags : List String) : Nat → Dict String → Parser (Dict String)
  | 0, _ => exhausted
  | fuel + 1, options => do
    skipSpaces
    let start ← cursor
    if start.peek? = some '-' ∧ (start.peekAt? 1).any Text.isAlphabetic then
      move (·.skip 1)
      let name ← simpleWord
      if flags.contains name then optionItems withValue flags fuel (options.insert name "")
      else if withValue.contains name then
        let value ← optionValue
        optionItems withValue flags fuel (options.insert name value)
      else failAt start.pos (.unexpectedArgument name)
    else return options

/-- Reads leading options such as `-r` and `-s height`. A dash without a letter behind it is no option, so that `-` stays a path. -/
def options (withValue flags : List String) : Parser (Dict String) :=
  traced "arguments" do
    let fuel ← look (·.rest.length + 1)
    optionItems withValue flags fuel .empty

/-- Reads an `@`, after blanks. -/
def separator : Parser Unit := do
  skipSpaces
  expect "@"

/-- Reads statements between braces. -/
def body (g : Grammar) : Parser Node :=
  traced "body" do
    skipSpaces
    expect "\x7b"
    let node ← g.statements
    skipSpaces
    expect "\x7d"
    return node

/-- Reads a path unless the command ends here. -/
def optionalPath (g : Grammar) : Parser (Option Node) := do
  if ← commandEnds then return none else return some (← path g "")

def optionalExpression (g : Grammar) (name : String) : Parser (Option Node) := do
  if ← commandEnds then return none else return some (← traced name g.expression)

/-- Reads an `@` and a value, if there are more. -/
def optionalValue (g : Grammar) : Parser (Option Node) := do
  skipSpaces
  if ← tryExact "@" then return some (← value g) else return none

def listFilters (g : Grammar) : Nat → List (String × Node) → Parser (List (String × Node))
  | 0, _ => exhausted
  | fuel + 1, filters => do
    if ← commandEnds then return filters.reverse
    let key ← traced "filter" complexWord
    if key = "" then fail (.expected "filter")
    else
      expect "="
      let pattern ← textNode g .path true
      listFilters g fuel ((key, pattern) :: filters)

/-- Reads the arguments of a listing. A first word with an equals sign behind it is a filter, and the listing is then of the current directory. -/
def listing (g : Grammar) (category : Option Kind) : Parser Node := do
  let options ← options ["s", "f"] ["r"]
  let start ← cursor
  let word ← simpleWord
  let filtersOnly ← look fun c => word ≠ "" && c.startsWith "="
  goto start
  let here ← if filtersOnly then pure true else commandEnds
  let path ← if here then pure (Node.literalPath ".") else path g ""
  let fuel ← look (·.rest.length + 1)
  let filters ← listFilters g fuel []
  return .list
    { path, category, filters
      sort := options.get? "s"
      attributes := (options.get? "f").elim [] (Text.split ':')
      recursive := options.contains "r" }

def variableName : Parser String := do
  let name ← traced "variable name" simpleWord
  if name = "" then fail (.expected "variable name") else return name

/-- Reads what is to be unset: an alias, a variable, or an attribute of an object or an item of it. -/
def unset (g : Grammar) : Parser Node := do
  let options ← options ["f", "v"] []
  match options.get? "f", options.get? "v" with
  | some name, _ => return .unsetAlias name
  | none, some name => return .unsetVariable name
  | none, none =>
    let path ← path g ""
    expect ":"
    let key ← traced "attribute" complexWord
    if key = "" then fail (.expected "attribute name")
    else if ← tryExact "[" then
      let index ← traced "index" g.expression
      expect "]"
      return .unsetAttribute path key (some index)
    else return .unsetAttribute path key none

/-- Reads a setting and its new value, or nothing. -/
def env (g : Grammar) : Parser Node := do
  if ← commandEnds then return .showSettings
  let name ← traced "setting" simpleWord
  expect "="
  return .setSetting name (← value g)

def printfItems (g : Grammar) : Nat → List Node → Parser (List Node)
  | 0, _ => exhausted
  | fuel + 1, items => do
    let item ← g.expression
    if ← tryExact "," then printfItems g fuel (item :: items) else return (item :: items).reverse

def printf (g : Grammar) : Parser Node := do
  let fuel ← look (·.rest.length + 1)
  match ← printfItems g fuel [] with
  | template :: args => return .print (.formatted template args)
  | [] => fail (.expected "format")

def conditional (g : Grammar) : Nat → Parser Node
  | 0 => exhausted
  | fuel + 1 => do
    let condition ← traced "condition" g.expression
    let body ← Parser.body g
    skipSpaces
    if ← tryExact "elif" then
      return .conditional condition body (some (← traced "elif" (conditional g fuel)))
    else if ← tryExact "else" then
      return .conditional condition body (some (← Parser.body g))
    else return .conditional condition body none

/-- Reads a loop with a start, a condition and a step, after the parenthesis. -/
def countedLoop (g : Grammar) : Parser Node := do
  let init ← g.statement
  skipSpaces
  expect ";"
  let condition ← traced "condition" g.expression
  expect ";"
  let step ← g.statement
  skipSpaces
  expect ")"
  return .forLoop init condition step (← body g)

def forLoop (g : Grammar) : Parser Node := do
  skipSpaces
  if ← tryExact "(" then countedLoop g
  else
    let name ← traced "loop variable" simpleWord
    if name = "" then fail (.expected "loop variable")
    else if ← tryExact "in" then
      if ← look (·.nextIs Text.isNameChar) then fail (.expected "in")
      else
        let first ← g.expression
        if ← tryExact ".." then
          let last ← traced "range end" g.expression
          return .forRange name first last (← body g)
        else return .forEach name first (← body g)
    else fail (.expected "in")

def select (g : Grammar) : Parser Node := do
  skipSpaces
  if ← look (·.startsWith "\x7b") then return .selectMany (← pathGroup g)
  match ← optionalPath g with
  | some path => return .select path
  | none => return .clearSelection

def delete (g : Grammar) : Parser Node := do
  let start ← cursor
  let isSelection ← tryExact "selection"
  if ← look fun c => isSelection && !c.nextIs Text.isNameChar then return .deleteSelection
  goto start
  return .delete (← path g "")

/-- Reads three values, each behind an `@`. -/
def threeValues (g : Grammar) : Parser (Node × Node × Node) := do
  separator
  let first ← value g
  separator
  let second ← value g
  separator
  let third ← value g
  return (first, second, third)

def creation (g : Grammar) : Creatable → Parser (Creation Node)
  | .orphan => do
    skipSpaces
    match ← keyword? orphans with
    | none => fail .orphanNotDevice
    | some _ =>
      expect ":"
      let path ← path g ""
      separator
      return .orphan path (← value g)
  | .domain => do
    expect ":"
    let path ← path g ""
    separator
    return .domain path (← value g)
  | .site => do
    expect ":"
    return .site (← path g "")
  | .building => do
    expect ":"
    let path ← path g ""
    let (position, rotation, size) ← threeValues g
    return .building path position rotation size
  | .room => do
    expect ":"
    let path ← path g ""
    let (position, rotation, size) ← threeValues g
    match ← optionalValue g with
    | none => return .room path position rotation size none none
    | some axis => return .room path position rotation size (some axis) (← optionalValue g)
  | .rack => do
    expect ":"
    let path ← path g ""
    let (position, rotation, size) ← threeValues g
    return .rack path position rotation size
  | .device => do
    expect ":"
    let path ← path g ""
    separator
    let position ← value g
    separator
    let size ← value g
    return .device path position size (← optionalValue g)
  | .corridor => do
    expect ":"
    let path ← path g ""
    separator
    let start ← cursor
    match ← pathGroup g with
    | [left, right] =>
      separator
      return .corridor path left right (← value g)
    | _ => failAt start.pos .rackCount
  | .group => do
    expect ":"
    let path ← path g ""
    separator
    return .group path (← pathGroup g)
  | .tag => do
    expect ":"
    let slug ← string g "slug"
    separator
    return .tag slug (← value g)

def create (g : Grammar) : Parser Node := do
  match ← keyword? creatables with
  | none => fail .unknownObjectType
  | some (word, creatable) => return .create (← traced word (creation g creatable))

def valueItems (g : Grammar) : Nat → List Node → Parser (List Node)
  | 0, _ => exhausted
  | fuel + 1, values => do
    let item ← value g
    skipSpaces
    if ← tryExact "@" then valueItems g fuel (item :: values) else return (item :: values).reverse

def update (g : Grammar) : Parser Node :=
  traced "update" do
    let path ← path g ""
    if ← tryExact ":" then
      let key ← traced "attribute" complexWord
      if key = "" then fail (.expected "attribute name")
      else
        expect "="
        skipSpaces
        let sharp ← tryExact "#"
        let fuel ← look (·.rest.length + 1)
        let values ← valueItems g fuel []
        return .update path key values sharp
    else fail .unknownCommand

def link (g : Grammar) : Parser Node := do
  let source ← path g "source"
  separator
  let dest ← path g "destination"
  return .link source dest (← optionalValue g)

def unlink (g : Grammar) : Parser Node := do
  let source ← path g "source"
  skipSpaces
  if ← tryExact "@" then return .unlink source (some (← path g "destination"))
  else return .unlink source none

def draw (g : Grammar) : Parser Node := do
  let options ← options [] ["f"]
  let path ← optionalPath g
  let depth ← optionalExpression g "depth"
  return .draw (path.getD (Node.literalPath ".")) depth (options.contains "f")

def ui (g : Grammar) : Parser Node := do
  match ← keyword? uiNames with
  | none => fail .unknownUiCommand
  | some (_, .clearCache) => return .ui .clearCache
  | some (_, .delay) =>
    skipSpaces
    expect "="
    return .ui (.delay (← traced "delay" g.expression))
  | some (_, .highlight) =>
    skipSpaces
    expect "="
    return .ui (.highlight (← path g ""))
  | some (word, .toggle feature) =>
    skipSpaces
    expect "="
    return .ui (.toggle feature (← traced word g.expression))

def camera (g : Grammar) : Parser Node := do
  match ← keyword? cameraNames with
  | none => fail .unknownCameraCommand
  | some (_, .wait) =>
    skipSpaces
    expect "="
    return .camera (.wait (← traced "delay" g.expression))
  | some (_, .go motion) =>
    skipSpaces
    expect "="
    let position ← traced "position" g.expression
    separator
    return .camera (.go motion position (← traced "rotation" g.expression))

def manual : Parser Node := do
  if ← commandEnds then return .manual none
  let first ← cursor
  move (·.skipWhile fun c => !Text.isBlank c && !isCommandStop c)
  let last ← cursor
  return .manual (some (first.textSince last))

/-- Reads the rest of a command after its keyword. -/
def afterKeyword (g : Grammar) : Keyword → Parser Node
  | .list category => listing g category
  | .get => return .get (← path g "")
  | .getUnit => do
    let path ← path g "rack"
    return .getUnit path (← traced "u" g.expression)
  | .getSlot => do
    let path ← path g "rack"
    return .getSlot path (← value g)
  | .undraw => return .undraw (← optionalPath g)
  | .draw => draw g
  | .drawable => do
    let path ← path g ""
    if ← commandEnds then return .drawable path none
    return .drawable path (some (← traced "attribute" complexWord))
  | .unset => unset g
  | .env => env g
  | .create => create g
  | .delete => delete g
  | .select => select g
  | .assign => do
    let name ← variableName
    expect "="
    return .assign name (← value g)
  | .runScript => return .runScript (← string g "script file")
  | .checkScript => return .checkScript (← string g "script file")
  | .loadTemplate => return .loadTemplate (← string g "template file")
  | .length => return .length (← variableName)
  | .link => link g
  | .unlink => unlink g
  | .copy => do
    let source ← path g "source"
    return .copy source (← string g "destination")
  | .print => return .print (← string g "")
  | .printf => printf g
  | .manual => manual
  | .changeDir => return .changeDir ((← optionalPath g).getD (Node.literalPath "/"))
  | .tree => do
    let path ← optionalPath g
    return .tree (path.getD (Node.literalPath ".")) (← optionalExpression g "depth")
  | .ui => ui g
  | .camera => camera g
  | .focus => return .focus (← optionalPath g)
  | .whileLoop => do
    let condition ← traced "condition" g.expression
    return .whileLoop condition (← body g)
  | .forLoop => forLoop g
  | .conditional => do conditional g (← look (·.rest.length + 1))
  | .defineAlias => do
    let name ← traced "alias name" simpleWord
    if name = "" then fail (.expected "alias name") else return .defineAlias name (← body g)
  | .connect => do
    if ← commandEnds then return .connect none
    return .connect (some (← string g "url"))
  | .printSelection => return .printSelection
  | .clearScreen => return .clearScreen
  | .showPeers => return .showPeers
  | .printDir => return .printDir
  | .exit => return .exit
  | .disconnect => return .disconnect

/-- Whether a word ends like a name, so that it has to be set off from what follows. -/
def endsLikeName (word : String) : Bool := word.toList.getLast?.any Text.isNameChar

/-- Whether what comes next sets a keyword off: nothing, a blank, or the end of the command. -/
def isSetOff (c : Cursor) : Bool := c.atEnd || c.nextIs fun ch => Text.isBlank ch || isCommandStop ch

/-- Reads one statement; where the command ends at once there is none. -/
def statement (g : Grammar) : Parser Node :=
  traced "command" do
    if ← commandEnds then return .nop
    let start ← cursor
    match ← keyword? keywords with
    | some (word, keyword) =>
      if ← look fun c => endsLikeName word && !isSetOff c then
        failAt start.pos .unknownKeyword
      else traced word (afterKeyword g keyword)
    | none =>
      let name ← simpleWord
      let ends ← if name = "" then pure false else commandEnds
      if ends then return .callAlias name
      goto start
      update g

/-- Reads statements separated by semicolons; `nodes` holds those read before, last first. -/
def statementItems (g : Grammar) : Nat → List Node → Parser (List Node)
  | 0, _ => exhausted
  | fuel + 1, nodes => do
    let node ← statement g
    let nodes := match node with
      | .nop => nodes
      | node => node :: nodes
    skipSpaces
    if ← tryExact ";" then statementItems g fuel nodes else return nodes.reverse

/-- Reads statements separated by semicolons. Empty statements are dropped. -/
def statements (g : Grammar) : Parser Node := do
  let fuel ← look (·.rest.length + 1)
  return Node.ofStatements (← statementItems g fuel [])

end Parser

/-- The parsers for parts nested at most `depth` deep. -/
def Grammar.ofDepth : Nat → Grammar
  | 0 =>
    { expression := Parser.exhausted
      binary := fun _ => Parser.exhausted
      unary := Parser.exhausted
      statement := Parser.exhausted
      statements := Parser.exhausted }
  | depth + 1 =>
    let g := Grammar.ofDepth depth
    { expression := Parser.expression g
      binary := Parser.binary g
      unary := Parser.unary g
      statement := Parser.statement g
      statements := Parser.statements g }

def commentless : List Char → List Char
  | '/' :: '/' :: _ => []
  | c :: cs => c :: commentless cs
  | [] => []

/-- A line without its comment. -/
def stripComment (line : String) : String := String.ofList (commentless line.toList)

/-- The depth that is enough for a line. -/
def depthFor (line : String) : Nat := line.length + 2

/-- Reads a whole line with `p`, up to a place that satisfies `ends`. -/
def parseLine (p : Grammar → Parser Node) (ends : Parser Bool) (line : String) :
    Except SyntaxError Node :=
  let line := stripComment line
  Parser.runOn (α := Node)
    (do
      let node ← p (Grammar.ofDepth (depthFor line))
      if ← ends then return node else Parser.fail .unexpectedCharacter)
    line

/-- Reads a command line. -/
def parse (line : String) : Except SyntaxError Node :=
  parseLine Grammar.statements Parser.commandEnds line

/-- Reads an expression that takes up the whole line. -/
def parseExpression (line : String) : Except SyntaxError Node :=
  parseLine Grammar.expression (Parser.look Cursor.atEnd) line

end TwinShell.Language
