import TwinShell.Hierarchy.Basic
import TwinShell.Session.Environment
import TwinShell.Session.Files
import TwinShell.Template
import TwinShell.Viewer.Basic

/-!
# Errors of commands

Why a command fails, cause by cause, and how each cause is worded.
-/

namespace TwinShell

/-- Why a value is of the wrong sort. -/
inductive TypeProblem where
  | shouldBe (what sort : String)
  | valueExpected
  | textOperands
  | floatOperands
  | operands
  | notComparable
  | notLogical
  | notNegatable
  | notBoolean
  | notAssignable (name : String)
  | notArray (name : String)
  | notIterable
  | notIndexable
  | unknownCategory (name : String)
  | negativeUnit
  | noJsonObject (file : String)
  | invalidTemplate (file : String) (e : Json.ReadError)
  | sizeOrTemplate
  | color
  | singleValue (key : String)
  | areas
  | separator
  | pillar
  | font
  | domainArguments
  | tagAttribute
  | notSettable (key : String)
  | notVector (key : String)
  deriving DecidableEq

def TypeProblem.message : TypeProblem → String
  | .shouldBe what sort => what ++ " should be " ++ sort
  | .valueExpected => "a value was expected"
  | .textOperands => "invalid operator for string operands"
  | .floatOperands => "invalid operator for float operands"
  | .operands => "invalid arithmetic operation attempted"
  | .notComparable => "cannot compare non numeric values"
  | .notLogical => "expected boolean values for logical operation"
  | .notNegatable => "cannot negate non numeric value"
  | .notBoolean => "cannot apply ! to a non boolean value"
  | .notAssignable name => "Invalid type to assign variable " ++ name
  | .notArray name => name ++ " is not an array"
  | .notIterable => "only an array can be iterated"
  | .notIndexable => "only an array can be indexed"
  | .unknownCategory name => "unknown category " ++ name
  | .negativeUnit => "The U value must be positive"
  | .noJsonObject file => file ++ " does not hold a JSON object"
  | .invalidTemplate file e => "invalid template " ++ file ++ ": " ++ e.message
  | .sizeOrTemplate => "vector3 (size) or string (template) expected"
  | .color => "Please provide a valid 6 length hex value for the color"
  | .singleValue key => "a single value is expected to update " ++ key
  | .areas => "2 values (reserved, technical) expected to set room areas"
  | .separator => "4 values (name, startPos, endPos, type) expected to add a separator"
  | .pillar => "4 values (name, centerXY, sizeXY, rotation) expected to add a pillar"
  | .font => "The font can only be bold or italic or be in the form of color@[colorValue]"
  | .domainArguments => "domain expects a name and an optional recursive flag"
  | .tagAttribute => "only slug, color and description can be set on a tag"
  | .notSettable key => key ++ " cannot be set directly, use " ++ key ++ "+ and " ++ key ++ "-"
  | .notVector key => key ++ " is not a vector"

/-- Why a path does not designate what a command needs. -/
inductive PathProblem where
  | severalSelected
  | missing (path : String)
  | noMatch (path : String)
  | copyElsewhere (source collection : String)
  | unknownTag (slug : String)
  deriving DecidableEq

def PathProblem.message : PathProblem → String
  | .severalSelected => "cannot cd into a selection of several objects"
  | .missing path => path ++ " does not exist"
  | .noMatch path => "no object matches " ++ path
  | .copyElsewhere source collection => "a copy of " ++ source ++ " must stay in " ++ collection
  | .unknownTag slug => "tag " ++ slug ++ " does not exist"

/-- Why a command cannot go on. -/
inductive RuntimeProblem where
  | overflow
  | nothingSelected
  | singleObject
  | emptyRange
  | templateNotFound (name : String)
  | aboveDrawLimit (count : Nat) (limit : Int64)
  | nestedScripts (file : String)
  | notCopyable (source : String)
  | noEntry (key name target : String)
  | notTagged (target slug : String)
  | noAttribute (target key : String)
  | unknownTopic (topic : String)
  deriving DecidableEq

def RuntimeProblem.message : RuntimeProblem → String
  | .overflow => "integer overflow"
  | .nothingSelected => "no object selected"
  | .singleObject => "this command applies to a single object"
  | .emptyRange => "start index should be lower than end index"
  | .templateNotFound name => "template " ++ name ++ " not found"
  | .aboveDrawLimit count limit =>
    Decimal.natText count ++ " objects to draw, above the limit of " ++
      Decimal.intText limit.toInt ++ "; use draw -f to draw them anyway"
  | .nestedScripts file => "cannot load " ++ file ++ ": too many nested scripts"
  | .notCopyable source => source ++ " cannot be copied, only tags and templates can"
  | .noEntry key name target => key ++ " " ++ name ++ " does not exist in " ++ target
  | .notTagged target slug => target ++ " is not tagged " ++ slug
  | .noAttribute target key => target ++ " has no attribute " ++ key
  | .unknownTopic topic =>
    "Unknown topic: '" ++ topic ++ "'\nRun 'man' to see available topics."

structure ScriptPlace where
  file : String
  line : Nat
  text : String
  deriving DecidableEq

/-- A statement that failed, with the places that led to it, outermost first. -/
structure Failure where
  places : List ScriptPlace
  message : String
  deriving DecidableEq

/-- Why a script fails: lines that cannot be read, by number and text, or statements that failed. -/
inductive ScriptError where
  | unreadable (file : String) (lines : List (Nat × String))
  | failed (failures : List Failure)
  deriving DecidableEq

def Failure.report (f : Failure) : String :=
  "Stack trace (most recent call last):\n" ++
    String.join (f.places.map fun p =>
      "  File \"" ++ p.file ++ "\", line " ++ Decimal.natText p.line ++ "\n    " ++ p.text ++ "\n") ++
    "Error : " ++ f.message

def ScriptError.message : ScriptError → String
  | .unreadable file lines =>
    "Syntax errors were found in the file: " ++ file ++ "\nThe following commands were invalid" ++
      String.join (lines.map fun (number, text) =>
        "\n  LINE#: " ++ Decimal.natText number ++ "\tCOMMAND:" ++ text)
  | .failed failures => "\n".intercalate (failures.map Failure.report)

/-- Why a command fails. -/
inductive EvalError where
  | undefinedVariable (name : String)
  | undefinedAlias (name : String)
  | type (problem : TypeProblem)
  | index (length : Nat) (index : Int64)
  | divisionByZero
  | path (problem : PathProblem)
  | runtime (problem : RuntimeProblem)
  | hierarchy (e : HierarchyError)
  | viewer (e : ViewerError)
  | template (e : Template.Error)
  | setting (e : SettingError)
  | file (e : FileError)
  | script (e : ScriptError)
  deriving DecidableEq

def EvalError.message : EvalError → String
  | .undefinedVariable name => "undefined variable " ++ name
  | .undefinedAlias name => "undefined function " ++ name
  | .type problem => problem.message
  | .index length position =>
    "Index out of range\nArray length : " ++ Decimal.natText length ++
      "\nBut desired index at : " ++ Decimal.intText position.toInt
  | .divisionByZero => "cannot divide by 0"
  | .path problem => problem.message
  | .runtime problem => problem.message
  | .hierarchy e => e.message
  | .viewer e => e.message
  | .template e => e.message
  | .setting e => e.message
  | .file e => e.message
  | .script e => e.message

/-- What ends the program on the spot. -/
inductive Breakdown where
  /-- The comparisons of a sort contradict each other. -/
  | contradictoryOrder
  /-- A number is to be written with more places than can be counted. -/
  | tooManyPlaces
  deriving DecidableEq, Repr

def Breakdown.message : Breakdown → String
  | .contradictoryOrder => "the order of the listing contradicts itself"
  | .tooManyPlaces => "a number cannot be written with so many places"

def EvalError.ofArith : ArithError → EvalError
  | .overflow => .runtime .overflow
  | .divisionByZero => .divisionByZero
  | .floatOperands => .type .floatOperands
  | .textOperands => .type .textOperands
  | .operands => .type .operands

end TwinShell
