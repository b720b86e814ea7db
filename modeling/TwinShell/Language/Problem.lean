import TwinShell.Decimal.Written
import TwinShell.Text.Basic

/-!
# Problems with a command line

A line that cannot be read is reported with the offset of the offending character and the names of the rules that were being read, outermost first.
-/

namespace TwinShell.Language

inductive Problem where
  | expected (what : String)
  | unexpectedCharacter
  | unexpectedToken (text : String)
  | unclosedParen (found : String)
  | unclosedBracket
  | formatWithoutArguments
  | unexpectedArgument (name : String)
  | unknownKeyword
  | unknownCommand
  | unknownObjectType
  | orphanNotDevice
  | rackCount
  | unknownUiCommand
  | unknownCameraCommand
  | tooDeep
  deriving DecidableEq, Repr

def Problem.message : Problem → String
  | .expected what => what ++ " expected"
  | .unexpectedCharacter => "unexpected character"
  | .unexpectedToken text => "unexpected token : " ++ text
  | .unclosedParen found => ") expected, got " ++ found
  | .unclosedBracket => "square bracket opened but not closed"
  | .formatWithoutArguments => "format expects at least one argument"
  | .unexpectedArgument name => "unexpected argument : " ++ name
  | .unknownKeyword => "unknown keyword"
  | .unknownCommand => "unknown command"
  | .unknownObjectType => "unknown object type"
  | .orphanNotDevice => "only devices can be orphans"
  | .rackCount => "only 2 racks expected"
  | .unknownUiCommand => "unknown ui command"
  | .unknownCameraCommand => "unknown camera command"
  | .tooDeep => "the line is nested too deeply"

structure SyntaxError where
  problem : Problem
  /-- Offset in characters. -/
  position : Nat
  /-- The rules being read, outermost first. -/
  trail : List String
  /-- The line that was read. -/
  input : String
  deriving DecidableEq, Repr

/-- The full report: the line, a mark under the offending character, the rules being read, and the problem. -/
def SyntaxError.report (e : SyntaxError) : String :=
  e.input ++ "\n" ++ String.ofList (List.replicate e.position ' ') ++ "^\n" ++
    (if e.trail.isEmpty then "" else "parsing stack : " ++ " -> ".intercalate e.trail ++ "\n") ++
    "Error : " ++ e.problem.message

end TwinShell.Language
