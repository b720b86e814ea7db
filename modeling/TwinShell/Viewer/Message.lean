import TwinShell.Json.Basic

/-!
# Messages to the viewer

Every message is a JSON object with a type and data.
-/

namespace TwinShell.Message

def typed (kind : String) (data : Json) : Json :=
  Json.ofObject (Dict.ofList [("type", .str kind), ("data", data)])

theorem typed_eq (kind : String) (data : Json) :
    typed kind data = .obj [("data", data), ("type", .str kind)] := by
  have hlt : "data" < "type" := by decide
  simp only [typed, Json.ofObject, Dict.ofList, Dict.insertAll, List.foldl_cons, List.foldl_nil, Dict.insert,
    Dict.empty, Assoc.put, if_pos hlt]

theorem field?_typed (kind : String) (data : Json) :
    (typed kind data).field? "type" = some (.str kind) ∧ (typed kind data).field? "data" = some data := by
  rw [typed_eq]
  exact ⟨rfl, rfl⟩

/-- Tells the viewer where the service is. -/
def login (apiUrl apiToken : String) : Json :=
  typed "login" (.obj [("api_token", .str apiToken), ("api_url", .str apiUrl)])

def logout : Json := typed "logout" (.str "")

def create (object : Json) : Json := typed "create" object

def modify (object : Json) : Json := typed "modify" object

def delete (id : String) : Json := typed "delete" (.str id)

/-- A display parameter of an object. -/
def interact (id param : String) (value : Json) : Json :=
  typed "interact" (.obj [("id", .str id), ("param", .str param), ("value", value)])

def ui (command : String) (data : Json) : Json :=
  typed "ui" (.obj [("command", .str command), ("data", data)])

def camera (command : String) (x y z rx ry : Float) : Json :=
  typed "camera" (.obj [
    ("command", .str command),
    ("position", .obj [("x", Json.ofFloat x), ("y", Json.ofFloat y), ("z", Json.ofFloat z)]),
    ("rotation", .obj [("x", Json.ofFloat rx), ("y", Json.ofFloat ry)])])

/-- The object to look at; an empty id looks at nothing in particular. -/
def focus (id : String) : Json := typed "focus" (.str id)

end TwinShell.Message
