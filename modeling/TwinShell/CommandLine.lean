import TwinShell.Hierarchy.Api
import TwinShell.Report
import TwinShell.Viewer.Client

/-!
# The command line

How the program is invoked. Arguments are read from left to right: an option is a long name after two hyphens, with its value after an equals sign or in the next argument, or a letter after one hyphen, with its value attached or in the next argument. Every option but `--var` may be given once. An option that is not given takes its value from an environment variable, if it has one, and else a default.
-/

namespace TwinShell.CommandLine

/-- How much is logged. -/
inductive Verbosity where
  | none
  | error
  | warning
  | info
  | debug
  deriving DecidableEq, Repr

def Verbosity.ofName? : String → Option Verbosity
  | "NONE" => some .none
  | "ERROR" => some .error
  | "WARNING" => some .warning
  | "INFO" => some .info
  | "DEBUG" => some .debug
  | _ => Option.none

/-- The options with a value. -/
inductive OptionName where
  | apiUrl
  | token
  | viewerAddress
  | timeout
  | verbosity
  | historyPath
  | file
  | command
  | binding
  deriving DecidableEq, Repr

/-- What an option name or letter asks for. -/
inductive Flag where
  | option (name : OptionName)
  | help
  | version
  deriving DecidableEq, Repr

def longNames : List (String × Flag) := [
  ("api-url", .option .apiUrl), ("token", .option .token), ("unity-url", .option .viewerAddress),
  ("timeout", .option .timeout), ("verbose", .option .verbosity),
  ("history-path", .option .historyPath), ("file", .option .file), ("command", .option .command),
  ("var", .option .binding), ("help", .help), ("version", .version)]

def letters : List (Char × Flag) := [
  ('a', .option .apiUrl), ('u', .option .viewerAddress), ('v', .option .verbosity),
  ('f', .option .file), ('c', .option .command), ('h', .help), ('V', .version)]

/-- Why an invocation is wrong. -/
inductive UsageError where
  | unexpected (argument : String)
  | missingValue (name : OptionName)
  | repeated (name : OptionName)
  | badValue (name : OptionName) (value : String)
  deriving DecidableEq, Repr

/-- The long name of an option. -/
def OptionName.spelling (name : OptionName) : String :=
  match longNames.find? (·.2 = .option name) with
  | some (spelling, _) => "--" ++ spelling
  | none => ""

def UsageError.message : UsageError → String
  | .unexpected argument => "unexpected argument '" ++ argument ++ "'"
  | .missingValue name => "a value is required for '" ++ name.spelling ++ "'"
  | .repeated name => "the argument '" ++ name.spelling ++ "' cannot be used multiple times"
  | .badValue name value => "invalid value '" ++ value ++ "' for '" ++ name.spelling ++ "'"

/-- A number of milliseconds: an unsigned 64-bit number. -/
def readMilliseconds? (text : String) : Option Nat :=
  let digits := match text.toList with
    | '+' :: rest => rest
    | cs => cs
  let n := Decimal.natOfDigits digits
  if !digits.isEmpty && digits.all Text.isDigit && n < 0x10000000000000000 then some n else none

def OptionName.accepts : OptionName → String → Bool
  | .timeout, text => (readMilliseconds? text).isSome
  | .verbosity, text => (Verbosity.ofName? text).isSome
  | .historyPath, text => text ≠ ""
  | .file, text => text ≠ ""
  | _, _ => true

/-- The environment variable that stands in for an option. -/
def OptionName.environmentName? : OptionName → Option String
  | .apiUrl => some "OGREE_API_URL"
  | .token => some "OGREE_API_TOKEN"
  | .viewerAddress => some "OGREE_3D_URL"
  | .timeout => some "OGREE_TIMEOUT"
  | _ => none

/-- The options given so far with their values, in order. -/
abbrev Given := List (OptionName × String)

def Given.value? (given : Given) (name : OptionName) : Option String :=
  (given.find? (·.1 = name)).map (·.2)

def Given.add (given : Given) (name : OptionName) (value : String) : Except UsageError Given :=
  if name ≠ .binding && (given.value? name).isSome then .error (.repeated name)
  else if name.accepts value then .ok (given ++ [(name, value)])
  else .error (.badValue name value)

inductive Argument where
  /-- Two hyphens: no options follow. -/
  | separator
  | long (name : String) (value : Option String)
  | short (letter : Char) (attached : List Char)
  | plain

/-- What follows the first equals sign in a text, and what stands before it. -/
def cutAtEquals (cs : List Char) : String × Option String :=
  match cs.dropWhile (· ≠ '=') with
  | _ :: value => (String.ofList (cs.takeWhile (· ≠ '=')), some (String.ofList value))
  | [] => (String.ofList cs, none)

def Argument.ofText (text : String) : Argument :=
  match text.toList with
  | ['-', '-'] => .separator
  | '-' :: '-' :: rest =>
    let (name, value) := cutAtEquals rest
    .long name value
  | '-' :: letter :: attached => .short letter attached
  | _ => .plain

/-- The value attached to a letter; an equals sign before it does not count. -/
def attachedValue? : List Char → Option String
  | [] => none
  | '=' :: value => some (String.ofList value)
  | value => some (String.ofList value)

/-- What an argument asks for, with the value that comes with it. -/
def Argument.flag? : Argument → Option (Flag × Option String)
  | .separator => none
  | .plain => none
  | .long name value =>
    match longNames.find? (·.1 = name) with
    | some (_, .option option) => some (.option option, value)
    | some (_, flag) => if value.isNone then some (flag, none) else none
    | none => none
  | .short letter attached =>
    (letters.find? (·.1 = letter)).map fun (_, flag) => (flag, attachedValue? attached)

/-- What the arguments ask for. -/
inductive Demand where
  | run (given : Given)
  | help
  | version

/-- Reads arguments, after those that were given. -/
def readArguments (given : Given) : List String → Except UsageError Demand
  | [] => .ok (.run given)
  | text :: rest =>
    match Argument.ofText text with
    | .separator =>
      match rest with
      | [] => .ok (.run given)
      | text :: _ => .error (.unexpected text)
    | argument =>
      match argument.flag? with
      | none => .error (.unexpected text)
      | some (.help, _) => .ok .help
      | some (.version, _) => .ok .version
      | some (.option name, some value) => do readArguments (← given.add name value) rest
      | some (.option name, none) =>
        match rest with
        | [] => .error (.missingValue name)
        | value :: rest =>
          match Argument.ofText value with
          | .plain => do readArguments (← given.add name value) rest
          | _ => .error (.missingValue name)

/-- How the program is to run. -/
structure Options where
  apiUrl : String := "http://localhost:3001"
  token : String := ""
  viewerAddress : String := "localhost:5500"
  /-- How long to wait for the network, in milliseconds. -/
  timeout : Nat := 5000
  verbosity : Verbosity := .error
  /-- Where the lines typed are kept. -/
  historyPath : String := ".history"
  file : Option String := none
  command : Option String := none
  /-- The variables to set first, each as `name=value`. -/
  bindings : List String := []
  deriving DecidableEq, Repr

/-- The value of an option: the one given, else that of its environment variable. -/
def valueOf? (given : Given) (environment : String → Option String) (name : OptionName) :
    Except UsageError (Option String) :=
  match given.value? name with
  | some value => .ok (some value)
  | none =>
    match name.environmentName?.bind environment with
    | none => .ok none
    | some value => if name.accepts value then .ok (some value) else .error (.badValue name value)

def Options.of (given : Given) (environment : String → Option String) :
    Except UsageError Options := do
  let value? := valueOf? given environment
  let standard : Options := {}
  return {
    apiUrl := (← value? .apiUrl).getD standard.apiUrl
    token := (← value? .token).getD standard.token
    viewerAddress := (← value? .viewerAddress).getD standard.viewerAddress
    timeout := ((← value? .timeout).bind readMilliseconds?).getD standard.timeout
    verbosity := ((← value? .verbosity).bind Verbosity.ofName?).getD standard.verbosity
    historyPath := (← value? .historyPath).getD standard.historyPath
    file := ← value? .file
    command := ← value? .command
    bindings := (given.filter (·.1 = .binding)).map (·.2) }

inductive Invocation where
  | run (options : Options)
  | help
  | version

def read (environment : String → Option String) (arguments : List String) :
    Except UsageError Invocation := do
  match ← readArguments [] arguments with
  | .run given => return .run (← Options.of given environment)
  | .help => return .help
  | .version => return .version

def versionLine : String := "ocli 0.2.0"

def usage : String := "\n".intercalate [
  "Usage: ocli [OPTIONS]",
  "",
  "Options:",
  "  -a, --api-url <URL>        URL of the API (environment: OGREE_API_URL)",
  "      --token <TOKEN>        Token sent to the API (environment: OGREE_API_TOKEN)",
  "  -u, --unity-url <ADDRESS>  Address of OGrEE-3D (environment: OGREE_3D_URL)",
  "      --timeout <MS>         Network timeout in milliseconds (environment: OGREE_TIMEOUT)",
  "  -v, --verbose <LEVEL>      NONE, ERROR, WARNING, INFO or DEBUG",
  "      --history-path <PATH>  File keeping the history",
  "  -f, --file <PATH>          Run a script and exit",
  "  -c, --command <COMMAND>    Run one command and exit",
  "      --var <NAME=VALUE>     Initial variable, may be repeated",
  "  -h, --help                 Print this text",
  "  -V, --version              Print the version"]

/-- The report of an invocation that runs nothing. -/
def usageReport : Except UsageError Invocation → Report
  | .ok .help => { stdout := Report.textOf [usage] }
  | .ok .version => { stdout := Report.textOf [versionLine] }
  | .ok (.run _) => {}
  | .error e => { status := 2, stderr := Report.textOf ["error: " ++ e.message] }

namespace Options

/-- The session that a run starts with. -/
def session (o : Options) (network : String → Dialled) (answers : List Answer) (files : Files) :
    Session ApiClient ViewerClient :=
  { hierarchy := .new o.apiUrl o.token answers
    viewer := { address := o.viewerAddress, apiUrl := o.apiUrl, apiToken := o.token, network }
    files }

section

variable {β ν : Type} [Hierarchy β] [Viewer ν]

/-- Sets the initial variables, until one cannot be set. -/
def setBindings : List String → EStateM RunError (Session β ν) Unit
  | [] => return ()
  | binding :: rest => do
    let _ ← Session.run (".var:" ++ binding)
    setBindings rest

/-- Whether a run reads its commands from the standard input. -/
def readsInput (o : Options) : Bool := o.command.isNone && o.file.isNone

/-- Sets the variables, and then runs the command, or else the script, or else the standard input as a script; input that is no text is an error. -/
def run (o : Options) (input : Option String) : EStateM RunError (Session β ν) Unit := do
  setBindings o.bindings
  match o.command with
  | some command =>
    let _ ← Session.run command
  | none =>
    match o.file with
    | some file => Session.runFile file
    | none =>
      match input with
      | some text => Session.runText "stdin" text
      | none => throw (.file .notText)

end

end Options

end TwinShell.CommandLine
