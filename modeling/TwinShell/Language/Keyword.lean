import TwinShell.Language.Node

/-!
# Keywords

The words that start a command, the words for what can be created, and the names of the commands for the viewer.
-/

namespace TwinShell.Language

/-- A command that starts with a keyword. -/
inductive Keyword where
  | list (category : Option Kind)
  | get
  | getUnit
  | getSlot
  | undraw
  | draw
  | drawable
  | unset
  | env
  | create
  | delete
  | select
  | assign
  | runScript
  | checkScript
  | loadTemplate
  | length
  | link
  | unlink
  | copy
  | print
  | printf
  | manual
  | changeDir
  | tree
  | ui
  | camera
  | focus
  | whileLoop
  | forLoop
  | conditional
  | defineAlias
  | connect
  | printSelection
  | clearScreen
  | showPeers
  | printDir
  | exit
  | disconnect
  deriving DecidableEq, Repr

def keywords : List (String × Keyword) := [
  ("ls", .list none), ("get", .get), ("getu", .getUnit), ("getslot", .getSlot),
  ("undraw", .undraw), ("draw", .draw), ("drawable", .drawable), ("unset", .unset), ("env", .env),
  ("+", .create), ("-", .delete), ("=", .select), (".var:", .assign), (".cmds:", .runScript),
  (".dryrun:", .checkScript), (".template:", .loadTemplate), ("len", .length), ("link:", .link),
  ("unlink", .unlink), ("cp", .copy), ("print", .print), ("printf", .printf), ("man", .manual),
  ("cd", .changeDir), ("tree", .tree), ("ui.", .ui), ("camera.", .camera), (">", .focus),
  ("while", .whileLoop), ("for", .forLoop), ("if", .conditional), ("alias", .defineAlias),
  ("connect3d", .connect), ("selection", .printSelection), ("clear", .clearScreen),
  ("lsog", .showPeers), ("pwd", .printDir), ("exit", .exit), ("disconnect3d", .disconnect),
  ("lssite", .list (some .site)), ("lsbldg", .list (some .building)),
  ("lsroom", .list (some .room)), ("lsrack", .list (some .rack)), ("lsdev", .list (some .device)),
  ("lsac", .list (some .airConditioner)), ("lspanel", .list (some .panel)),
  ("lscabinet", .list (some .cabinet)), ("lscorridor", .list (some .corridor))]

/-- What a creation command can create. -/
inductive Creatable where
  | domain
  | site
  | building
  | room
  | rack
  | device
  | corridor
  | group
  | tag
  | orphan
  deriving DecidableEq, Repr

def creatables : List (String × Creatable) := [
  ("domain", .domain), ("do", .domain), ("site", .site), ("si", .site), ("building", .building),
  ("bldg", .building), ("bd", .building), ("room", .room), ("ro", .room), ("rack", .rack),
  ("rk", .rack), ("device", .device), ("dv", .device), ("corridor", .corridor), ("co", .corridor),
  ("group", .group), ("gr", .group), ("tag", .tag), ("orphan", .orphan)]

/-- The words for what an orphan can be. -/
def orphans : List (String × Creatable) := [("device", .device), ("dv", .device)]

/-- A command for the viewer's user interface, by name. -/
inductive UiName where
  | clearCache
  | delay
  | toggle (feature : UiFeature)
  | highlight
  deriving DecidableEq, Repr

def uiNames : List (String × UiName) := [
  ("clearcache", .clearCache), ("delay", .delay), ("debug", .toggle .debug),
  ("infos", .toggle .infos), ("wireframe", .toggle .wireframe), ("highlight", .highlight),
  ("hl", .highlight)]

inductive CameraName where
  | go (motion : CameraMotion)
  | wait
  deriving DecidableEq, Repr

def cameraNames : List (String × CameraName) :=
  [("move", .go .move), ("translate", .go .translate), ("wait", .wait)]

end TwinShell.Language
