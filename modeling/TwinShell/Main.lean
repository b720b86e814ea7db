import TwinShell.CommandLine
import TwinShell.Loop
import TwinShell.Text.Utf8

/-!
# The program

Reads the arguments, the environment, the standard input and the files that commands ask for, and runs. The computation itself is pure: it is run with the files loaded so far, and run again when it asked for others. There is no network here: every request to the service fails, and every connection to the viewer is refused.
-/

namespace TwinShell.Main

abbrev State := Session ApiClient ViewerClient

/-- Adds what the file system has at a path: a file, or a directory as one with something in it. -/
def load (files : Files) (path : String) : IO Files := do
  try
    let bytes ← IO.FS.readBinFile path
    return ⟨files.contents.insert path (Text.decode? bytes.toList)⟩
  catch
    | .inappropriateType _ 21 _ => return ⟨files.contents.insert (path ++ "/.") none⟩
    | _ => return files

/-- Runs a step until all the files that it asks for are loaded. -/
partial def settled {α : Type} (step : State → α × State) (s : State) : IO (α × State) := do
  let (result, after) := step { s with reads := [] }
  let paths := after.reads.map fun path => (Files.placeOf path).path
  let missing := paths.filter fun path => !s.files.contents.contains path
  let files ← missing.foldlM load s.files
  if files.contents.keys.length = s.files.contents.keys.length then return (result, after)
  else settled step { s with files }

/-- Prints what was printed in the session since it had `done` lines. -/
def flush (done : Nat) (s : State) : IO Unit := do
  for line in s.output.toList.drop done do
    IO.println line

/-- The interactive loop on a terminal; gives the exit status. -/
partial def interact (s : State) : IO UInt32 := do
  let shown := Loop.showMessages s
  flush s.output.size shown
  IO.print (shown.env.currentPath ++ "> ")
  (← IO.getStdout).flush
  let line ← (← IO.getStdin).getLine
  if line.isEmpty then return 0
  let (error, after) ← settled (Loop.runLine line) shown
  flush shown.output.size after
  if let some e := error then
    IO.eprintln e.report
    if e.isFatal then return (Report.statusOf e).toUInt32
  if after.exitRequested then return 0 else interact after

/-- The values of the environment variables that stand in for options. -/
def readEnvironment : IO (List (String × String)) := do
  let names := ["OGREE_API_URL", "OGREE_API_TOKEN", "OGREE_3D_URL", "OGREE_TIMEOUT"]
  names.filterMapM fun name => do
    return (← IO.getEnv name).map (name, ·)

/-- Reads the standard input to its end. -/
partial def readInput (stream : IO.FS.Stream) (sofar : ByteArray) : IO ByteArray := do
  let bytes ← stream.read 65536
  if bytes.isEmpty then return sofar else readInput stream (sofar ++ bytes)

def finish (report : Report) : IO UInt32 := do
  IO.print report.stdout
  IO.eprint report.stderr
  return report.status.toUInt32

def run (options : CommandLine.Options) : IO UInt32 := do
  let start := options.session (fun _ => .refused) [] .empty
  let stdin ← IO.getStdin
  if options.readsInput && (← stdin.isTty) then
    let step (s : State) : Option RunError × State :=
      match CommandLine.Options.setBindings options.bindings s with
      | .ok _ s => (none, s)
      | .error e s => (some e, s)
    let (error, s) ← settled step start
    flush 0 s
    match error with
    | some e => finish { status := Report.statusOf e, stderr := Report.textOf [e.report] }
    | none => interact s
  else
    let input ← if options.readsInput then readInput stdin .empty else pure .empty
    let step (s : State) : Report × State :=
      let result := options.run (Text.decode? input.toList) s
      (Report.ofResult result, match result with
        | .ok _ s => s
        | .error _ s => s)
    let (report, _) ← settled step start
    finish report

end TwinShell.Main

def main (arguments : List String) : IO UInt32 := do
  let environment ← TwinShell.Main.readEnvironment
  match TwinShell.CommandLine.read (environment.lookup ·) arguments with
  | .ok (.run options) => TwinShell.Main.run options
  | other => TwinShell.Main.finish (TwinShell.CommandLine.usageReport other)
