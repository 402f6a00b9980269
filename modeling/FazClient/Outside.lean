import FazClient.Config
import FazClient.Connection
import FazClient.Endpoint

/-!
# FazClient.Outside

The world outside: attempts to connect, a service, and taking leave of it.

* `Outside` — any such world;
* `Outside.connect`, `Outside.close` — making a connection and closing it;
* `Network` — a peer behind an endpoint, which is such a world (`Network.outside`);
* `Connection.connect`, `Connection.close` — the same for a connection over an endpoint.
-/

namespace FazClient

open Session

/-- The world outside, with states in `σ`.  An attempt to connect to an address
ends after some milliseconds, unless it never does, and it may fail for a reason;
then there is a service; and taking leave of it may fail for a reason. -/
structure Outside (σ : Type) where
  dial : (url : String) → σ → Option (Nat × Except String Unit) × σ
  service : Service σ
  leave : σ → Except String Unit × σ

/-! ## Log entries -/

/-- The log entry of an attempt to connect to an address. -/
def Connection.connecting (url : String) : LogEntry :=
  ⟨.debug, "Connecting to faz", [("url", url)]⟩

/-- The log entry of a connection that was made. -/
def Connection.established : LogEntry := ⟨.debug, "Faz connection established", []⟩

/-! ## Connecting and closing -/

namespace Outside

variable (w : Outside σ)

/-- What comes of an attempt to connect that ended like this, or that did not end
in time. -/
def attempted : Option (Except String Unit) → Except Failure Unit
  | some outcome => outcome.mapError .connection
  | none => .error (.timeout "connection timed out")

/-- Tries to connect to an address.  An attempt that ends after the timeout, or
never, has failed. -/
def attempt (url : String) (timeout : Nat) : Session σ (Except Failure Unit) := fun s =>
  let (met, s) := w.dial url s
  let inTime := met.filter fun (delay, _) => delay ≤ timeout
  ⟨attempted (inTime.map Prod.snd), s, [.dialed url]⟩

/-- Connects to an address, whose scheme has to be known. -/
def connect (url : String) (timeout : Nat) : Session σ (Except Failure Unit) := do
  if !Config.knownScheme url then
    return .error (Config.badScheme url)
  record (Connection.connecting url)
  match ← w.attempt url timeout with
  | .error f => return .error f
  | .ok () =>
    record Connection.established
    return .ok ()

/-- Closes the connection. -/
def close : Session σ (Except Failure Unit) := fun s =>
  let (left, s) := w.leave s
  let result := left.mapError .connection
  ⟨result, s, [.closed result]⟩

end Outside

/-! ## Networks -/

/-- A peer behind an endpoint: how a connection is met, what the peer says first,
and what it says to each message. -/
structure Network (π : Type) where
  endpoint : Endpoint
  greeting : List Incoming := []
  peer : Connection.Peer π

/-- A peer as the world outside.  Its endpoint takes no time. -/
def Network.outside (net : Network π) : Outside (Connection × π) where
  dial url := fun (_, p) =>
    ((net.endpoint.dial url).map fun outcome => (0, outcome), { unread := net.greeting }, p)
  service := Connection.service net.peer
  leave := fun (c, p) => (c.leave, c, p)

/-- A network whose peer never says anything but this. -/
def Network.mute (e : Endpoint) (greeting : List Incoming) : Network Unit where
  endpoint := e
  greeting := greeting
  peer := fun _ p => (.ok [], p)

namespace Connection

/-- Connects to an address over an endpoint, with the time that is usual.  `unread` is what the
peer says of its own accord. -/
def connect (url : String) (e : Endpoint) (unread : List Incoming) : Except Failure Connection :=
  let net := Network.mute e unread
  let ran := (net.outside.connect url Config.default.connectTimeout).run ({}, ())
  ran.result.map fun () => ran.state.1

/-- Closes a connection, whatever it was made over. -/
def close (c : Connection) : Except Failure Unit :=
  ((Network.mute .accepts []).outside.close.run (c, ())).result

end Connection

end FazClient
