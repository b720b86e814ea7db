import TwinShell.Manual
import TwinShell.Session.Drawing
import TwinShell.Session.Move
import TwinShell.Session.Script
import TwinShell.Session.Update

/-!
# Evaluation

`step` evaluates one node with an evaluator for the nodes inside it, and `execute` applies it to itself as long as there is fuel. Fuel bounds how deep nodes are nested, through aliases and scripts too, and how often a loop goes round. Once `exit` was run, no sequence, loop or script starts another statement.
-/

namespace TwinShell

namespace Command

variable {β ν : Type} [Hierarchy β] [Viewer ν] (ev : Node → Command β ν Value)

def exiting : Command β ν Bool := return (← MonadState.get).exitRequested

def lookUp (name : String) : Command β ν Value := do
  match (← getEnv).bindings.get? name with
  | some value => return value
  | none => fail (.undefinedVariable name)

def item (array : Value) (index : Int64) : Except EvalError Value :=
  match array with
  | .vector xs =>
    match if 0 ≤ index then xs[index.toInt.toNat]? else none with
    | some x => .ok (.float x)
    | none => .error (.index xs.length index)
  | .list items =>
    match if 0 ≤ index then items[index.toInt.toNat]? else none with
    | some value => .ok value
    | none => .error (.index items.length index)
  | _ => .error (.type .notIndexable)

/-- The value of an array: a vector if all items are numbers. -/
def arrayValue (items : List Value) : Value :=
  match items.mapM Value.float? with
  | some xs => .vector xs
  | none => .list items

def filled (template : String) (args : List Value) : Command β ν Value :=
  match Template.format template args with
  | .ok text => return .str text
  | .error (.tooManyPlaces _) => throw (.broken .tooManyPlaces)
  | .error e => fail (.template e)

def binary (op : BinaryOp) (left right : Value) : Except EvalError Value :=
  match op with
  | .arith op => (Value.arith op left right).mapError EvalError.ofArith
  | .compare op =>
    match Value.compare op left right with
    | some b => .ok (.bool b)
    | none => .error (.type .notComparable)
  | .equal => .ok (.bool (left.equal right))
  | .notEqual => .ok (.bool (!left.equal right))
  | .and => logic (· && ·)
  | .or => logic (· || ·)
where
  /-- A connective on two truth values. -/
  logic (f : Bool → Bool → Bool) : Except EvalError Value :=
    match left.bool?, right.bool? with
    | some a, some b => .ok (.bool (f a b))
    | _, _ => .error (.type .notLogical)

def negated (value : Value) : Except EvalError Value :=
  match value.number? with
  | some n => (n.negate.map Number.toValue).mapError EvalError.ofArith
  | none => .error (.type .notNegatable)

def assign (name : String) (node : Node) : Command β ν Value := do
  let value ← ev node
  if value.isAssignable then
    modifyEnv (·.setVariable name value)
    return .null
  else failType (.notAssignable name)

def unsetVariable (name : String) : Command β ν Value := do
  if (← getEnv).bindings.contains name then
    modifyEnv fun env => { env with bindings := env.bindings.erase name }
    return .null
  else fail (.undefinedVariable name)

def unsetAlias (name : String) : Command β ν Value := do
  if (← getEnv).aliases.contains name then
    modifyEnv fun env => { env with aliases := env.aliases.erase name }
    return .null
  else fail (.undefinedAlias name)

def callAlias (name : String) : Command β ν Value := do
  match (← getEnv).aliases.get? name with
  | some body => ev body
  | none => fail (.undefinedAlias name)

def showLength (name : String) : Command β ν Value := do
  match (← lookUp name).length? with
  | some n =>
    let length := Value.int (Int64.ofNat n)
    emit length.text
    return length
  | none => failType (.notArray name)

def showSettings : Command β ν Value := do
  let env ← getEnv
  emitAll (env.bindings.entries.map fun (name, value) => name ++ " = " ++ value.text)
  emitAll (env.settings.entries.map fun (name, text) => name ++ " : " ++ text)
  return .null

def setSetting (name : String) (node : Node) : Command β ν Value := do
  let value ← ev node
  let settings ← settle (((← getEnv).settings.set name value).mapError .setting)
  modifyEnv fun env => { env with settings }
  return .null

/-- Runs statements until one asks to exit, and gives the value of the last one. -/
def sequence (last : Value) : List Node → Command β ν Value
  | [] => return last
  | node :: rest => do
    let value ← ev node
    if ← exiting then return value else sequence value rest

/-- Runs one of two bodies. -/
def conditional (condition body : Node) (otherwise : Option Node) : Command β ν Value := do
  if ← evalBool ev condition "condition" then ev body
  else
    match otherwise with
    | some otherwise => ev otherwise
    | none => return .null

/-- Runs a body and then a step as long as a condition holds. -/
def loop (condition body : Node) (step : Option Node) : Nat → Command β ν Value
  | 0 => throw .exhausted
  | fuel + 1 => do
    if ← evalBool ev condition "condition" then
      let _ ← ev body
      if ← exiting then return .null
      else
        match step with
        | some step =>
          let _ ← ev step
          loop condition body (some step) fuel
        | none => loop condition body none fuel
    else return .null

/-- Runs a body `count` times, with a variable that counts up from `first`. -/
def countUp (name : String) (body : Node) : Nat → Int → Command β ν Value
  | 0, _ => return .null
  | count + 1, first => do
    modifyEnv (·.setVariable name (.int (Int64.ofInt first)))
    let _ ← ev body
    if ← exiting then return .null else countUp name body count (first + 1)

/-- Runs a body for the integers between two bounds, both included. -/
def forRange (name : String) (first last body : Node) : Command β ν Value := do
  let first ← evalInt ev first "range start"
  let last ← evalInt ev last "range end"
  if last < first then failRuntime .emptyRange
  else countUp ev name body (last.toInt - first.toInt + 1).toNat first.toInt

/-- Runs a body for each of some values. -/
def forItems (name : String) (body : Node) : List Value → Command β ν Value
  | [] => return .null
  | value :: rest => do
    modifyEnv (·.setVariable name value)
    let _ ← ev body
    if ← exiting then return .null else forItems name body rest

def forEach (name : String) (array body : Node) : Command β ν Value := do
  match ← ev array with
  | .vector xs => forItems ev name body (xs.map .float)
  | .list items => forItems ev name body items
  | _ => failType .notIterable

def manual (topic : Option String) : Command β ν Value := do
  match topic with
  | none => emit Manual.overview
  | some topic =>
    match Manual.page? topic with
    | some page => emit page
    | none => failRuntime (.unknownTopic topic)
  return .null

def clearSequence : String := "\x1b[2J\x1b[H"

/-- Evaluates a node, with `ev` for the nodes inside it and at most `fuel` rounds of a loop. -/
def step (fuel : Nat) (node : Node) : Command β ν Value :=
  match node with
  | .nop => return .null
  | .literal value => return value
  | .symbol name => lookUp name
  | .element name index => do
    let array ← lookUp name
    let index ← evalInt ev index "index"
    settle (item array index)
  | .array items => return arrayValue (← evalAll ev items)
  | .interpolation template args => do filled template (← evalAll ev args)
  | .formatted template args => do
    let template ← evalText ev template
    filled template (← evalAll ev args)
  | .path raw => return .str (← evalPath ev (.path raw))
  | .binary op left right => do
    let left ← ev left
    let right ← ev right
    settle (binary op left right)
  | .negate operand => do settle (negated (← ev operand))
  | .not operand => do
    match (← ev operand).bool? with
    | some b => return .bool !b
    | none => failType .notBoolean
  | .assign name value => assign ev name value
  | .defineAlias name body => do
    modifyEnv fun env => { env with aliases := env.aliases.insert name body }
    return .null
  | .callAlias name => callAlias ev name
  | .unsetVariable name => unsetVariable name
  | .unsetAlias name => unsetAlias name
  | .unsetAttribute path key index => unsetAttribute ev path key index
  | .length name => showLength name
  | .print value => do
    emit (← ev value).render
    return .null
  | .showSettings => showSettings
  | .setSetting name value => setSetting ev name value
  | .sequence statements => sequence ev .null statements
  | .conditional condition body otherwise => conditional ev condition body otherwise
  | .whileLoop condition body => loop ev condition body none fuel
  | .forLoop init condition after body => do
    let _ ← ev init
    loop ev condition body (some after) fuel
  | .forRange name first last body => forRange ev name first last body
  | .forEach name array body => forEach ev name array body
  | .changeDir path => do changeDir (← evalPath ev path)
  | .printDir => do
    let current := (← getEnv).currentPath
    emit current
    return .str current
  | .list listing => list ev listing
  | .tree path depth => tree ev path depth
  | .get path => get ev path
  | .getUnit path unit => getUnit ev path unit
  | .getSlot path slot => getSlot ev path slot
  | .select path => do select (← evalTargets ev path)
  | .selectMany paths => do select (← evalPaths ev paths)
  | .clearSelection => do
    modifyEnv fun env => { env with selection := [] }
    emit "Selection cleared"
    return .null
  | .printSelection => printSelection
  | .create creation => create ev creation
  | .update path key values sharp => update ev path key values sharp
  | .delete path => delete ev path
  | .deleteSelection => deleteSelection
  | .link source dest slot => link ev source dest slot
  | .unlink source dest => unlink ev source dest
  | .copy source dest => copy ev source dest
  | .draw path depth force => draw ev path depth force
  | .undraw path => undraw ev path
  | .drawable path key => drawable ev path key
  | .ui command => ui ev command
  | .camera command => camera ev command
  | .focus path => focus ev path
  | .connect address => connect ev address
  | .disconnect => disconnect
  | .runScript file => runScript ev file
  | .checkScript file => checkScript ev file
  | .loadTemplate file => loadTemplate ev file
  | .manual topic => manual topic
  | .showPeers => showPeers
  | .clearScreen => do
    emit clearSequence
    return .null
  | .exit => do
    modify fun s => { s with exitRequested := true }
    return .null

/-- Evaluates a node with a given fuel. -/
def execute : Nat → Node → Command β ν Value
  | 0, _ => throw .exhausted
  | fuel + 1, node => step (execute fuel) fuel node

end Command

/-- Why a command line has no value. -/
inductive RunError where
  | unreadable (e : Language.SyntaxError)
  | failed (e : EvalError)
  | file (e : FileError)
  | broken (cause : Breakdown)
  | exhausted
  deriving DecidableEq

def RunError.report : RunError → String
  | .unreadable e => e.report
  | .failed (.script e) => e.message
  | .failed e => "Error : " ++ e.message
  | .file e => "IO error: " ++ e.message
  | .broken cause => "Fatal error : " ++ cause.message
  | .exhausted => "Error : out of fuel"

def RunError.isFatal : RunError → Bool
  | .broken _ => true
  | _ => false

/-- The error that a stop amounts to. -/
def RunError.ofStop : Stop → RunError
  | .failed e => .failed e
  | .broken cause => .broken cause
  | .exhausted => .exhausted

namespace Session

variable {β ν : Type} [Hierarchy β] [Viewer ν]

/-- The fuel of a command line: more than any computation of interest uses. -/
def defaultFuel : Nat := 0x4000000000000000

def eval (node : Node) : Command β ν Value := Command.execute defaultFuel node

/-- Reads and runs a command line. -/
def run (line : String) : EStateM RunError (Session β ν) Value := fun s =>
  match Language.parse line with
  | .error e => .error (.unreadable e) s
  | .ok node =>
    match eval node s with
    | .ok value s => .ok value s
    | .error stop s => .error (.ofStop stop) s

def runText (file text : String) : EStateM RunError (Session β ν) Unit := fun s =>
  match Command.runText eval file text s with
  | .ok _ s => .ok () s
  | .error stop s => .error (.ofStop stop) s

def runFile (path : String) : EStateM RunError (Session β ν) Unit := fun s =>
  match Command.runFile eval path s with
  | .ok _ s => .ok () s
  | .error stop s => .error (.ofStop stop) s

end Session

end TwinShell
