import TwinShell.Session.Eval

/-!
# Reports

What a run of the program leaves behind: the text on its two outputs and its exit status, which is 0 for success, 1 for a failure, 2 for a wrong invocation and 134 for a breakdown.
-/

namespace TwinShell

/-- What a run of the program leaves behind. -/
structure Report where
  status : UInt8 := 0
  stdout : String := ""
  stderr : String := ""
  deriving DecidableEq, Repr

namespace Report

/-- Lines as a text, each with its line feed. -/
def textOf (lines : List String) : String := String.join (lines.map (· ++ "\n"))

def statusOf (e : RunError) : UInt8 := if e.isFatal then 134 else 1

/-- The report of a run that ends with its first error. -/
def ofResult {β ν : Type} : EStateM.Result RunError (Session β ν) Unit → Report
  | .ok _ s => { stdout := textOf s.output.toList }
  | .error e s =>
    { status := statusOf e, stdout := textOf s.output.toList, stderr := textOf [e.report] }

/-- The report of a run that goes on after errors; only a breakdown counts as a failure. -/
def ofErrors {β ν : Type} (errors : List RunError) (s : Session β ν) : Report :=
  { status := ((errors.find? RunError.isFatal).map statusOf).getD 0
    stdout := textOf s.output.toList
    stderr := textOf (errors.map RunError.report) }

end Report

end TwinShell
