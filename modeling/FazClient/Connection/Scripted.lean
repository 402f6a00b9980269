import FazClient.Connection

/-!
# FazClient.Connection.Scripted

A peer that answers from a list, for trying out connections.
-/

namespace FazClient

/-- One message of a script: a frame, made from the frame of the call it answers,
or a message of another kind. -/
inductive ScriptedMessage where
  | frame (f : Frame → Frame)
  | other (m : Incoming)

/-- What the peer still has to send, for one call after the other; whether it can
be read; and the messages that the peer received, in order. -/
structure Script where
  replies : List (List ScriptedMessage) := []
  way : Way := .clear
  received : List (List UInt8) := []

namespace Script

/-- A frame that reports success and nothing else. -/
def acknowledgement (call : Frame) : Frame := .reply call .hookReply HookReply.mk

/-- A message as it leaves the peer. -/
def toIncoming (call : Frame) : ScriptedMessage → Incoming
  | .frame f => .binary (f call).encode
  | .other m => m

/-- The messages of one answer that are read, and what is left of the way then. -/
def play (call : Frame) (messages : List ScriptedMessage) : List Incoming × Way :=
  Way.carry (messages.map (toIncoming call))

/-- Answers each message with the next list of the script, and with a frame that
reports success when there is none.  Once the peer has left it does nothing, and
behind a message that cannot be read the stream is over. -/
def peer : Connection.Peer Script := fun bytes s =>
  match s.way with
  | .gone => (.ok [], s)
  | .blocked => (.ok [.ended], { s with received := s.received ++ [bytes] })
  | .clear =>
    let call : Frame := match Frame.decode bytes with
      | .ok f => f
      | .error _ => {}
    let (messages, way) := play call (s.replies.headD [.frame acknowledgement])
    (.ok messages, ⟨s.replies.tail, way, s.received ++ [bytes]⟩)

end Script

end FazClient
