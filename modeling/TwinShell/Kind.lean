/-!
# Kinds of objects

Every object of the hierarchy has a category, written into its `category` field.
-/

namespace TwinShell

/-- The category of an object. -/
inductive Kind where
  | site
  | building
  | room
  | rack
  | device
  | airConditioner
  | panel
  | cabinet
  | corridor
  | group
  | domain
  | tag
  | objectTemplate
  | roomTemplate
  | buildingTemplate
  | stray
  deriving DecidableEq, Repr

namespace Kind

def all : List Kind :=
  [.site, .building, .room, .rack, .device, .airConditioner, .panel, .cabinet, .corridor, .group,
    .domain, .tag, .objectTemplate, .roomTemplate, .buildingTemplate, .stray]

def name : Kind → String
  | .site => "site"
  | .building => "building"
  | .room => "room"
  | .rack => "rack"
  | .device => "device"
  | .airConditioner => "ac"
  | .panel => "panel"
  | .cabinet => "cabinet"
  | .corridor => "corridor"
  | .group => "group"
  | .domain => "domain"
  | .tag => "tag"
  | .objectTemplate => "obj_template"
  | .roomTemplate => "room_template"
  | .buildingTemplate => "bldg_template"
  | .stray => "stray_object"

/-- The kind with this name; `bldg` is short for a building. -/
def ofName? (name : String) : Option Kind :=
  if name = "bldg" then some .building else all.find? fun kind => kind.name = name

/-- Whether the viewer knows how to draw objects of this kind. -/
def isDrawable : Kind → Bool
  | .site | .building | .room | .rack | .device => true
  | .airConditioner | .panel | .cabinet | .corridor | .group => true
  | .domain | .tag | .objectTemplate | .roomTemplate | .buildingTemplate | .stray => false

end Kind

end TwinShell
