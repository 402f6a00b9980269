import FazClient.Address
import FazClient.Upgrade

/-!
# FazClient.Endpoint

The ways in which an attempt to connect can be met.
-/

namespace FazClient

/-- How an attempt to connect is met. -/
inductive Endpoint where
  /-- There is no way to the host. -/
  | unreachable
  /-- Nothing listens there. -/
  | refuses
  /-- The upgrade request is never answered. -/
  | stalls
  /-- The stream is closed after the upgrade request. -/
  | drops
  /-- Something else than the agreed answer comes back. -/
  | responds (bytes : List UInt8)
  | accepts
  deriving DecidableEq

namespace Endpoint

/-- How an attempt to connect ends, if it ever does. -/
def meet : Endpoint → Option (Except String Unit)
  | unreachable => some (.error "IO error: Network is unreachable (os error 101)")
  | refuses => some (.error "IO error: Connection refused (os error 111)")
  | stalls => none
  | drops => some (.error "WebSocket protocol error: Handshake not finished")
  | responds bytes => some (.error (Upgrade.refusal bytes))
  | accepts => some (.ok ())

/-- How an attempt to connect to an address ends: its form has to be right before
anything is sent. -/
def dial (e : Endpoint) (url : String) : Option (Except String Unit) :=
  match Address.check url with
  | .error f => some (.error s!"HTTP format error: {f.message}")
  | .ok () => e.meet

end Endpoint

end FazClient
