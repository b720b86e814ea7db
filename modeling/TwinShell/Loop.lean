import TwinShell.Report

/-!
# The interactive loop

Command lines are run one after the other until one asks to exit. Blank lines do nothing, and a line that fails is reported and does not end the loop, unless the program breaks down. Before a line is read, the messages received from the viewer are printed. At the end the viewer is disconnected.
-/

namespace TwinShell.Loop

variable {β ν : Type} [Hierarchy β] [Viewer ν]

def showMessages (s : Session β ν) : Session β ν :=
  let (messages, viewer) := Viewer.drain s.viewer
  { s with
    viewer
    output := s.output ++ (messages.map ("OGrEE-3D : " ++ ·)).toArray }

/-- Runs one line, and gives the error if it fails. -/
def runLine (line : String) (s : Session β ν) : Option RunError × Session β ν :=
  let line := Text.trim line
  if line = "" then (none, s)
  else
    match Session.run line s with
    | .ok _ s => (none, s)
    | .error e s => (some e, s)

/-- Runs lines until one asks to exit or the program breaks down, and gives the errors. -/
def runLines : List String → Session β ν → List RunError × Session β ν
  | [], s => ([], showMessages s)
  | line :: rest, s =>
    let (error, s) := runLine line (showMessages s)
    if s.exitRequested || error.any RunError.isFatal then (error.toList, s)
    else
      let (errors, s) := runLines rest s
      (error.toList ++ errors, s)

def finish (s : Session β ν) : Session β ν := { s with viewer := Viewer.disconnect s.viewer }

/-- Runs the lines of a text as an interactive session. -/
def run (text : String) (s : Session β ν) : List RunError × Session β ν :=
  let (errors, s) := runLines (Text.lines text) s
  (errors, finish s)

end TwinShell.Loop
