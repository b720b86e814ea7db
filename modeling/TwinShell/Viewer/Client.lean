import TwinShell.Decimal.Reader
import TwinShell.Text.Basic
import TwinShell.Text.Utf8
import TwinShell.Viewer.Basic
import TwinShell.Viewer.Frame
import TwinShell.Viewer.Message

/-!
# A client of the viewer

The client holds at most one connection. It logs in when it connects and logs out when it disconnects, and connecting anew disconnects first. A connection is data: the frames written on it, the bytes that came in and are no whole frame yet, the texts received, and whether it is still alive. What the other side does (`Connection.receive`, `Connection.hangUp`, `Connection.sever`) are functions on connections.

The client is not alone in time: between any two of its steps the other side can send or hang up, the connection can break, and the network can change. What is to happen in this way is part of the state, as `ViewerClient.ahead`, and every step lets it happen first.
-/

namespace TwinShell

/-- A connection to the viewer. -/
structure Connection where
  /-- The payloads written so far, in order. -/
  sent : Array (List UInt8) := #[]
  /-- The bytes received that are no whole frame yet. -/
  pending : List UInt8 := []
  /-- The texts received and not yet handed out. -/
  incoming : List String := []
  /-- Whether the client takes the connection to be open. -/
  alive : Bool := true
  /-- Whether the next write fails. -/
  severed : Bool := false

namespace Connection

/-- Takes whole frames off the bytes received. Bytes that can start no frame end the connection. -/
def absorb (c : Connection) : Connection :=
  if !c.alive then c
  else
    let (payloads, left, error) := Frame.readAll c.pending
    { c with
      incoming := c.incoming ++ payloads.map Text.decodeLossy
      pending := left
      alive := error.isNone || error == some .truncated }

def receive (c : Connection) (bytes : List UInt8) : Connection :=
  ({ c with pending := c.pending ++ bytes }).absorb

/-- The other side sends a text as a frame. -/
def receiveText (c : Connection) (text : String) : Connection :=
  let payload := Text.encode text
  c.receive (Frame.header payload.length ++ payload)

def hangUp (c : Connection) : Connection := { c with alive := false }

/-- The connection breaks without the client noticing. -/
def sever (c : Connection) : Connection := { c with severed := true }

end Connection

/-- What the network does with an attempt to connect. -/
inductive Dialled where
  | accepted
  | refused

/-- What happens without the client doing it. -/
inductive Happening where
  /-- The other side sends bytes. -/
  | received (bytes : List UInt8)
  /-- The other side closes the connection. -/
  | hungUp
  /-- The connection breaks without the client noticing. -/
  | severed
  /-- Attempts to connect lead elsewhere from now on. -/
  | rerouted (network : String → Dialled)

/-- A client of the viewer. -/
structure ViewerClient where
  address : String
  apiUrl : String
  apiToken : String
  /-- What connecting to an address leads to. -/
  network : String → Dialled
  /-- The texts that the viewer sends on every new connection. -/
  greetings : List String := []
  connection : Option Connection := none
  /-- The connections that were closed, in order. -/
  closed : Array Connection := #[]
  /-- What happens before each of the next steps; nothing at the end of the list. -/
  ahead : List (List Happening) := []

namespace ViewerClient

/-- Whether there is a connection that is still alive. -/
def isConnected (v : ViewerClient) : Bool := v.connection.any (·.alive)

def refusal : String := "Connection refused (os error 111)"

def brokenPipe : String := "Broken pipe (os error 32)"

/-- Whether an address ends in a colon and a port number. -/
def hasPort (address : String) : Bool :=
  let parts := Text.split ':' address
  match parts.getLast? with
  | some port =>
    let digits := if Text.startsWith port "+" then port.toList.drop 1 else port.toList
    2 ≤ parts.length && !digits.isEmpty && digits.all Text.isDigit &&
      Decimal.natOfDigits digits < 0x10000
  | none => false

/-- What the other side does to the connection, if there is one. -/
def onConnection (f : Connection → Connection) (v : ViewerClient) : ViewerClient :=
  { v with connection := v.connection.map f }

/-- The client after something happens to it. -/
def undergo (v : ViewerClient) : Happening → ViewerClient
  | .received bytes => v.onConnection (·.receive bytes)
  | .hungUp => v.onConnection .hangUp
  | .severed => v.onConnection .sever
  | .rerouted network => { v with network }

/-- The client when it comes to its next step: what was ahead has happened. -/
def proceed (v : ViewerClient) : ViewerClient :=
  match v.ahead with
  | [] => v
  | now :: later => now.foldl undergo { v with ahead := later }

/-- Writes a payload as a frame. A write that fails ends the connection. -/
def write (payload : List UInt8) : EStateM ViewerError ViewerClient Unit := fun v =>
  let v := v.proceed
  match v.connection with
  | none => .error .notConnected v
  | some c =>
    if c.severed then
      .error (.connection brokenPipe) { v with connection := some { c with alive := false } }
    else .ok () { v with connection := some { c with sent := c.sent.push payload } }

/-- Sends a message, if the connection is alive; it may have ended when the message is written. -/
def send (message : Json) : EStateM ViewerError ViewerClient Unit := fun v =>
  let v := v.proceed
  if v.isConnected then
    let payload := Text.encode message.compact
    match Frame.encode? payload with
    | none => .error (.tooLarge payload.length) v
    | some _ => write payload v
  else .error .notConnected v

/-- The client after a call, whether it succeeds or fails. -/
def afterCall (call : EStateM ViewerError ViewerClient Unit) (v : ViewerClient) : ViewerClient :=
  match call v with
  | .ok _ v => v
  | .error _ v => v

def close (v : ViewerClient) : ViewerClient :=
  match v.connection with
  | some c => { v with connection := none, closed := v.closed.push c }
  | none => v

/-- Logs out if the connection is alive, and closes it. -/
def disconnect (v : ViewerClient) : ViewerClient :=
  let v := v.proceed
  let v := if v.isConnected then afterCall (send Message.logout) v else v
  v.proceed.close

/-- Opens a connection. -/
def dial (address : String) (v : ViewerClient) : Except ViewerError Connection :=
  if !hasPort address then .error (.invalidAddress address)
  else
    match v.network address with
    | .refused => .error (.connection refusal)
    | .accepted => .ok (v.greetings.foldl Connection.receiveText {})

/-- Disconnects, opens a connection and logs in. -/
def connect (address : String) : EStateM ViewerError ViewerClient Unit := fun v =>
  let v := v.disconnect.proceed
  match dial address v with
  | .error e => .error e v
  | .ok c =>
    send (Message.login v.apiUrl v.apiToken) { v with address, connection := some c }

def drain (v : ViewerClient) : List String × ViewerClient :=
  match v.connection with
  | some c => (c.incoming, { v with connection := some { c with incoming := [] } })
  | none => ([], v)

instance : Viewer ViewerClient where
  isConnected := isConnected
  send := send
  connect := connect
  disconnect := disconnect
  address v := v.address
  drain := drain

end ViewerClient

end TwinShell
