import TwinShell.Text.Basic

/-!
# The manual

An overview, and a page for each topic. A topic goes by several names, among them the commands it explains; upper and lower case do not matter.
-/

namespace TwinShell.Manual

/-- A topic of the manual. -/
inductive Topic where
  | navigation
  | listing
  | tree
  | fetching
  | selection
  | creation
  | updates
  | deletion
  | linking
  | copying
  | drawing
  | interface
  | camera
  | focus
  | assigning
  | aliases
  | controlFlow
  | printing
  | settings
  | unsetting
  | scripts
  | viewer
  deriving DecidableEq, Repr

def Topic.all : List Topic := [
  .navigation, .listing, .tree, .fetching, .selection, .creation, .updates, .deletion, .linking,
  .copying, .drawing, .interface, .camera, .focus, .assigning, .aliases, .controlFlow, .printing,
  .settings, .unsetting, .scripts, .viewer]

def Topic.names : Topic → List String
  | .navigation => ["cd", "pwd", "navigation", "path", "paths"]
  | .listing => [
      "ls", "lssite", "lsbldg", "lsroom", "lsrack", "lsdev", "lsac", "lspanel", "lscabinet",
      "lscorridor"]
  | .tree => ["tree"]
  | .fetching => ["get", "getu", "getslot"]
  | .selection => ["=", "select", "selection"]
  | .creation => ["+", "create"]
  | .updates => [":", "update"]
  | .deletion => ["-", "delete"]
  | .linking => ["link", "unlink"]
  | .copying => ["cp", "copy"]
  | .drawing => ["draw", "undraw", "drawable"]
  | .interface => ["ui"]
  | .camera => ["camera"]
  | .focus => [">", "focus"]
  | .assigning => [".var", "var", "variables", "len"]
  | .aliases => ["alias", "function", "functions"]
  | .controlFlow => ["if", "for", "while", "control"]
  | .printing => ["print", "printf", "format"]
  | .settings => ["env"]
  | .unsetting => ["unset"]
  | .scripts => [".cmds", "cmds", ".dryrun", "dryrun", ".template", "template", "scripts"]
  | .viewer => ["lsog", "connect3d", "disconnect3d", "ogree3d"]

def Topic.page : Topic → List String
  | .navigation => [
    "CD, PWD",
    "",
    "  cd [path]         Change the current path, / when omitted",
    "  cd -              Go back to the previous path",
    "  pwd               Print the current path",
    "",
    "The target must exist. Examples:",
    "",
    "  cd /P/site/bldg",
    "  cd ..",
    "  cd -"]
  | .listing => [
    "LS",
    "",
    "  ls [-s attr] [-f a:b:c] [-r] [path] [key=value ...]",
    "  lssite lsbldg lsroom lsrack lsdev lsac lspanel lscabinet lscorridor",
    "",
    "  -s attr           Sort by an attribute, numerically when possible",
    "  -f a:b            Show attributes next to each name",
    "  -r                Whole subtree instead of direct children",
    "  key=value         Keep children whose attribute matches, * is a wildcard",
    "",
    "The lsXXX forms only list children of one category. Examples:",
    "",
    "  ls -s height",
    "  lsrack -r /P/site category=rack name=R*"]
  | .tree => [
    "TREE",
    "",
    "  tree [path] [depth]",
    "",
    "Draw the subtree under path, one level when depth is omitted."]
  | .fetching => [
    "GET, GETU, GETSLOT",
    "",
    "  get path          Print an object, * in the last segment matches several",
    "  get _             Print the selected objects",
    "  getu rack u       Device of rack occupying unit u",
    "  getslot rack slot Device of rack installed in slot"]
  | .selection => [
    "SELECT",
    "",
    "  =path             Select one object and move to it",
    "  =\x7ba, b\x7d           Select children of the current path",
    "  =                 Clear the selection",
    "  selection         Print the selection",
    "",
    "Most commands accept _ as a path to act on every selected object."]
  | .creation => [
    "CREATE",
    "",
    "  +domain:path@color",
    "  +site:path",
    "  +building:path@posXY@rotation@sizeOrTemplate",
    "  +room:path@posXY@rotation@sizeOrTemplate[@axisOrientation[@floorUnit]]",
    "  +rack:path@position@rotation@sizeOrTemplate",
    "  +device:path@posUOrSlot@sizeUOrTemplate[@side]",
    "  +group:path@\x7bchild1, child2\x7d",
    "  +corridor:path@\x7brack1, rack2\x7d@temperature",
    "  +tag:slug@color",
    "  +orphan device:path@template",
    "",
    "Short forms: do si bd ro rk dv co gr. Sizes are vectors, otherwise the",
    "value names a template. Rack rotations are vectors or one of front, rear,",
    "left, right, top, bottom. Colors are 6 hexadecimal digits."]
  | .updates => [
    "UPDATE",
    "",
    "  path:attribute=value[@value...]",
    "",
    "  areas=[r1,r2,r3,r4]@[t1,t2,t3,t4]         Reserved and technical areas",
    "  separators+=name@[x,y]@[x,y]@type         Add a separator",
    "  pillars+=name@[x,y]@[w,h]@rotation        Add a pillar",
    "  separators-=name, pillars-=name           Remove one",
    "  tags+=slug, tags-=slug                    Tag or untag",
    "  description=text, domain=name[@true]      Top-level fields",
    "  label=text, label=#attribute              Label shown in OGrEE-3D",
    "  labelFont=bold|italic|color@hex",
    "  labelBackground=hex",
    "  displayContent alpha tilesName tilesColor U slots localCS = true|false",
    "",
    "Any other attribute is stored as given."]
  | .deletion => [
    "DELETE",
    "",
    "  -path             Delete an object and its subtree",
    "  -selection        Delete the selected objects"]
  | .linking => [
    "LINK, UNLINK",
    "",
    "  link:source@destination[@slot]    Move a stray object into the hierarchy",
    "  unlink source[@destination]       Move an object out, to Stray by default"]
  | .copying => [
    "CP",
    "",
    "  cp source destination",
    "",
    "Copies a tag or a template. The destination is the new slug, or a path in",
    "the same collection as the source."]
  | .drawing => [
    "DRAW, UNDRAW, DRAWABLE",
    "",
    "  draw [-f] [path] [depth]",
    "  undraw [path]",
    "  drawable path [attribute]",
    "",
    "draw refuses to send more objects than drawLimit unless -f is given.",
    "Only categories listed in the drawable setting are sent."]
  | .interface => [
    "UI",
    "",
    "  ui.delay=seconds",
    "  ui.debug=bool, ui.infos=bool, ui.wireframe=bool",
    "  ui.highlight=path, ui.hl=path",
    "  ui.clearcache"]
  | .camera => [
    "CAMERA",
    "",
    "  camera.move=[x,y,z]@[rx,ry]",
    "  camera.translate=[x,y,z]@[rx,ry]",
    "  camera.wait=seconds"]
  | .focus => [
    "FOCUS",
    "",
    "  >path             Focus OGrEE-3D on an object and move to it",
    "  >                 Reset the focus"]
  | .assigning => [
    "VARIABLES",
    "",
    "  .var:name=value",
    "  $name, $\x7bname\x7d, $name[index]",
    "  $((expression))",
    "  len name",
    "",
    "Values are booleans, integers, floats, strings, vectors and objects.",
    "Arithmetic: + - * / \\ %, / always gives a float and \\ is floor division.",
    "Comparison: == != < <= > >=, logic: && || !."]
  | .aliases => [
    "ALIAS",
    "",
    "  alias name \x7b commands \x7d",
    "  name              Run the alias"]
  | .controlFlow => [
    "IF, FOR, WHILE",
    "",
    "  if condition \x7b ... \x7d elif condition \x7b ... \x7d else \x7b ... \x7d",
    "  while condition \x7b ... \x7d",
    "  for i in 0..4 \x7b ... \x7d",
    "  for v in $array \x7b ... \x7d",
    "  for (init; condition; step) \x7b ... \x7d",
    "",
    "Ranges include both bounds."]
  | .printing => [
    "PRINT, PRINTF",
    "",
    "  print value",
    "  printf format, args...",
    "  format(format, args...)",
    "",
    "Verbs: %v %s %d %f %.Nf %g, %% for a literal percent sign."]
  | .settings => [
    "ENV",
    "",
    "  env               Print variables and settings",
    "  env updates=bool  Forward changes to OGrEE-3D",
    "  env drawLimit=n   Objects draw sends without -f",
    "  env drawable=a,b  Categories draw sends"]
  | .unsetting => [
    "UNSET",
    "",
    "  unset -v name     Remove a variable",
    "  unset -f name     Remove an alias",
    "  unset path:attr   Remove an attribute",
    "  unset path:attr[i] Remove one element of a vector attribute"]
  | .scripts => [
    ".CMDS, .DRYRUN, .TEMPLATE",
    "",
    "  .cmds:file.ocli       Run every line of a script",
    "  .dryrun:file.ocli     Report the syntax errors of a script without running it",
    "  .template:file.json   Upload a template",
    "",
    "Scripts keep going after a failing line and report every failure at the",
    "end. A line ending with \\ continues on the next one."]
  | .viewer => [
    "LSOG, CONNECT3D",
    "",
    "  lsog              Print the API and OGrEE-3D addresses",
    "  connect3d [url]   Connect to OGrEE-3D",
    "  disconnect3d      Close the connection"]

def overviewLines : List String := [
    "OGREE CLI MANUAL",
    "",
    "Commands address objects of the datacenter model by path. Paths are",
    "absolute (/Physical/site/bldg) or relative to the current path; P, L and O",
    "abbreviate Physical, Logical and Organisation, _ stands for the selection",
    "and - for the previous path. Several commands are separated by ';', text",
    "after // is a comment.",
    "",
    "TOPICS",
    "",
    "  cd pwd            Moving around the hierarchy",
    "  ls                Listing children, with filters and sorting",
    "  tree              Drawing a subtree",
    "  get               Fetching objects, getu and getslot for devices",
    "  select            Selecting objects with =",
    "  create            Creating objects with +",
    "  update            Setting attributes with path:attr=value",
    "  delete            Deleting objects with -",
    "  link              Linking and unlinking stray objects",
    "  cp                Copying tags and templates",
    "  draw              Sending objects to OGrEE-3D",
    "  ui camera focus   Driving the OGrEE-3D view",
    "  var               Variables and expressions",
    "  alias             Reusable command blocks",
    "  if for while      Control flow",
    "  print             Printing values and format()",
    "  env               Session settings",
    "  unset             Removing variables, aliases and attributes",
    "  cmds              Running scripts and loading templates",
    "  lsog              OGrEE-3D connection",
    "",
    "Run 'man <topic>' for details."]

/-- The lower case of a character, as far as names of topics can tell: of the characters beyond ASCII only the Kelvin sign has an ASCII letter as its lower case. -/
def lower (c : Char) : Char :=
  if 'A' ≤ c && c ≤ 'Z' then Char.ofNat (c.toNat + 32)
  else if c.toNat = 0x212A then 'k'
  else c

def Topic.ofName? (name : String) : Option Topic :=
  let name := Text.trim (String.ofList (name.toList.map lower))
  Topic.all.find? (·.names.contains name)

def page? (name : String) : Option String := (Topic.ofName? name).map ("\n".intercalate ·.page)

def overview : String := "\n".intercalate overviewLines

end TwinShell.Manual
