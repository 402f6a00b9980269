import FazClient.Service

/-!
# FazClient.Service.Scripted

A service that answers from a list, for trying out clients.
-/

namespace FazClient

/-- How one call is answered: after some time or never, with a failure or with a
reply.  Only the reply to an event has a payload. -/
structure ScriptedReply where
  delay : Option Nat := some 0
  failure : Option Failure := none
  payload : Option Any := none

/-- The reply of a method, with this payload if it has one. -/
def Method.replyWith (payload : Option Any) : (m : Method) → m.Reply
  | .hook => HookReply.mk
  | .unhook => UnhookReply.mk
  | .event => EventReply.mk payload

/-- Answers each call with the next reply of the list, and at once and without a
payload when there is none. -/
def Service.scripted : Service (List ScriptedReply) where
  serve m _ replies :=
    let r := replies.headD {}
    let answer := match r.failure with
      | some f => .error f
      | none => .ok (m.replyWith r.payload)
    ⟨r.delay.map fun delay => (delay, answer), replies.tail, []⟩

end FazClient
