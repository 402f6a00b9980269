import FazClient.Error
import FazClient.Message

/-!
# FazClient.Frame

Calls and replies as frames.  A reply carries the method and the id of its call;
a frame of a version above `Frame.version` is refused, whatever else it says.
-/

namespace FazClient

open Wire

/-! ## Methods -/

/-- What the service can be asked to do. -/
inductive Method where
  | hook
  | unhook
  | event
  deriving DecidableEq

namespace Method

/-- The number of the method in a frame. -/
def number : Method → UInt32
  | hook => 1
  | unhook => 2
  | event => 3

/-- The schema of a request. -/
def request : Method → Schema
  | hook => .hookRequest
  | unhook => .unhookRequest
  | event => .eventRequest

/-- The schema of a reply. -/
def reply : Method → Schema
  | hook => .hookReply
  | unhook => .unhookReply
  | event => .eventReply

/-- The requests of this method. -/
@[reducible] def Request (m : Method) : Type := m.request.Message

/-- The replies of this method. -/
@[reducible] def Reply (m : Method) : Type := m.reply.Message

end Method

/-! ## Frames -/

namespace Frame

/-- The version of the frames that are written, and the last one understood. -/
def currentVersion : UInt32 := 1

/-- The status of a call that succeeded. -/
def statusOk : Int32 := 0

/-- A call. -/
def call (method : UInt32) (callId : UInt64) (s : Schema) (m : s.Message) : Frame where
  method := method
  callId := callId
  body := FazClient.encode s m
  status := statusOk
  version := currentVersion

/-- The reply to a call that succeeded. -/
def reply (call : Frame) (s : Schema) (m : s.Message) : Frame where
  method := call.method
  callId := call.callId
  body := FazClient.encode s m
  status := statusOk
  version := currentVersion

/-- The reply to a call that failed. -/
def failure (call : Frame) (status : Int32) (message : String) : Frame where
  method := call.method
  callId := call.callId
  status := status
  message := message
  version := currentVersion

/-- Whether the frame reports success. -/
def isOk (f : Frame) : Bool := f.status = statusOk

/-- The bytes of a frame. -/
def encode (f : Frame) : List UInt8 := FazClient.encode .frame f

/-- The frame in these bytes. -/
def decode (bytes : List UInt8) : Except CodecError Frame :=
  match FazClient.decode .frame bytes with
  | .error e => .error (.decoding e.message)
  | .ok f =>
    if currentVersion < Frame.version f then
      .error (.unsupportedVersion (Frame.version f) currentVersion)
    else
      .ok f

/-- The body, as a message of this schema. -/
def bodyAs (f : Frame) (s : Schema) : Except CodecError s.Message :=
  (FazClient.decode s f.body).mapError fun e => .decoding e.message

end Frame

end FazClient
