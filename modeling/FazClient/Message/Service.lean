/-!
# FazClient.Message.Service

The records of the event service: binding handlers to types of event, running a
handler on a payload, and the frame that carries a call or its reply.
-/

namespace FazClient

/-- A value together with the name of its schema. -/
structure Any where
  typeUrl : String := ""
  value : List UInt8 := []
  deriving DecidableEq

/-- Asks to bind a handler to a type of event. -/
structure HookRequest where
  eventType : Int32 := 0
  eventFunction : String := ""
  deriving DecidableEq

structure HookReply where
  deriving DecidableEq

/-- Asks to remove the handler of a type of event. -/
structure UnhookRequest where
  eventType : Int32 := 0
  deriving DecidableEq

structure UnhookReply where
  deriving DecidableEq

/-- Asks to run the handler of a type of event. -/
structure EventRequest where
  eventType : Int32 := 0
  payload : Option Any := none
  deriving DecidableEq

structure EventReply where
  payload : Option Any := none
  deriving DecidableEq

/-- One message of a session: a call, or the reply to the call with the same id.
A status other than 0 says that the call failed, for the reason in `message`. -/
structure Frame where
  method : UInt32 := 0
  callId : UInt64 := 0
  body : List UInt8 := []
  status : Int32 := 0
  message : String := ""
  version : UInt32 := 0
  deriving DecidableEq

end FazClient
