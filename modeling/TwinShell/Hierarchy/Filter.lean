import TwinShell.Json.Printer
import TwinShell.Kind
import TwinShell.Text.Wildcard

/-!
# Filters

A listing can be restricted to a category and to objects whose attributes match given patterns.
-/

namespace TwinShell

/-- A field of an object, or else one of its `attributes`, as text. A string stands for itself, anything else is written as JSON. -/
def attributeText? (object : Object) (key : String) : Option String :=
  let value? :=
    match object.get? key with
    | some value => some value
    | none => (object.get? "attributes").bind (·.field? key)
  value?.map fun value =>
    match value with
    | .str s => s
    | other => other.compact

def category? (object : Object) : Option String := (object.get? "category").bind Json.text?

/-- What a listing is restricted to. -/
structure Filter where
  category : Option Kind := none
  /-- Attributes with the patterns they have to match. -/
  attributes : List (String × String) := []
  /-- Whether everything below is listed, or only the direct children. -/
  recursive : Bool := false
  deriving DecidableEq

def Filter.accepts (filter : Filter) (object : Object) : Bool :=
  (match filter.category with
    | some kind => category? object == some kind.name
    | none => true) &&
  filter.attributes.all fun (key, pattern) =>
    match attributeText? object key with
    | some text => Text.wildcardMatch pattern text
    | none => false

end TwinShell
