import TwinShell.Json.Printer

/-!
# Viewers

A session can be connected to a three-dimensional viewer, which it tells about changes. What a session needs of it is the class `Viewer`.
-/

namespace TwinShell

inductive ViewerError where
  | notConnected
  | invalidAddress (address : String)
  | tooLarge (size : Nat)
  | connection (reason : String)
  deriving DecidableEq

def ViewerError.message : ViewerError → String
  | .notConnected => "not connected to OGrEE-3D"
  | .invalidAddress address => "cannot resolve OGrEE-3D address " ++ address
  | .tooLarge size => "message of " ++ Decimal.natText size ++ " bytes is too large"
  | .connection reason => "OGrEE-3D connection error: " ++ reason

/-- What a session needs of a viewer with states `ν`. -/
class Viewer (ν : Type) where
  isConnected : ν → Bool
  /-- Sends a message. -/
  send : Json → EStateM ViewerError ν Unit
  /-- Connects to an address. -/
  connect : String → EStateM ViewerError ν Unit
  disconnect : ν → ν
  /-- Where the viewer is. -/
  address : ν → String
  /-- The messages received since the last time. -/
  drain : ν → List String × ν

/-- A viewer that keeps every message. -/
structure Recorder where
  connected : Bool := false
  address : String := ""
  messages : Array Json := #[]
  /-- Messages received from the viewer. -/
  inbox : List String := []

instance : Viewer Recorder where
  isConnected r := r.connected
  send message := fun r =>
    if r.connected then .ok () { r with messages := r.messages.push message }
    else .error .notConnected r
  connect address := fun r => .ok () { r with address, connected := true }
  disconnect r := { r with connected := false }
  address r := r.address
  drain r := (r.inbox, { r with inbox := [] })

end TwinShell
