import FazClient.Service

/-!
# FazClient.Connection

A session over a stream of messages.  Every call goes out as one frame with an id
of its own; then messages are read until one decides the call.  Pings, pongs and
replies to other calls decide nothing, and messages that a call does not read
are there for the next one.

* `Incoming.fault?` — which messages carry too much to be read;
* `Verdict` — what a message means to a call that waits (`Connection.judge`);
* `Connection.receive` — reads up to the message that decides;
* `Connection.Peer` — the other end and the way there, on which a message may be lost;
* `Connection.service` — a connection and its peer, as a service.
-/

namespace FazClient

/-! ## Messages -/

/-- What arrives from the peer, each message in one piece. -/
inductive Incoming where
  | binary (bytes : List UInt8)
  | text (content : String)
  | ping (payload : List UInt8)
  | pong (payload : List UInt8)
  /-- The peer takes its leave. -/
  | close
  /-- The stream breaks off without leave. -/
  | reset
  /-- The stream ends. -/
  | ended
  /-- Something comes that cannot be read. -/
  | broken (text : String)
  deriving DecidableEq

namespace Incoming

/-- The most bytes that a message may carry. -/
def maxSize : Nat := 16777216

/-- The most bytes that a ping or a pong may carry. -/
def maxControlSize : Nat := 125

/-- How many bytes a message carries. -/
def size : Incoming → Nat
  | binary bytes => bytes.length
  | text content => content.utf8ByteSize
  | ping payload => payload.length
  | pong payload => payload.length
  | _ => 0

/-- Whether a message is a ping or a pong. -/
def isControl : Incoming → Bool
  | ping _ => true
  | pong _ => true
  | _ => false

/-- Why a message cannot be read, if it carries too much. -/
def fault? (m : Incoming) : Option String :=
  if maxSize < m.size then
    some s!"Space limit exceeded: Message too long: {m.size} > {maxSize}"
  else if m.isControl && maxControlSize < m.size then
    some "WebSocket protocol error: Control frame too big (payload must be 125 bytes or less)"
  else
    none

end Incoming

/-- What is left of the way from the peer. -/
inductive Way where
  | clear
  /-- The peer sent what cannot be read, and nothing after that is. -/
  | blocked
  /-- The peer has left. -/
  | gone
  deriving DecidableEq

/-- The messages of these that are read on a clear way, and what is left of the way then. -/
def Way.carry : List Incoming → List Incoming × Way
  | [] => ([], clear)
  | .reset :: _ => ([.reset], gone)
  | m :: rest =>
    match m.fault? with
    | some text => ([.broken text], blocked)
    | none =>
      let (ms, way) := carry rest
      (m :: ms, way)

/-- What can still be sent. -/
inductive Link where
  | live
  /-- The peer has taken its leave. -/
  | closing
  /-- The stream is gone. -/
  | gone
  deriving DecidableEq

namespace Link

/-- Why nothing can be sent, if so. -/
def refusal? : Link → Option String
  | live => none
  | closing => some "WebSocket protocol error: Sending after closing is not allowed"
  | gone => some "Trying to work with closed connection"

/-- The link after a message was read. -/
def after (l : Link) : Incoming → Link
  | .close => closing
  | .reset => gone
  | _ => l

end Link

/-! ## Verdicts -/

/-- What a message means to a call that waits for its reply. -/
inductive Verdict (α : Type) where
  /-- It decides nothing. -/
  | skip (log : List LogEntry)
  /-- It ends the call. -/
  | settle (answer : Except Failure α) (log : List LogEntry)

/-- The state of a connection: the id of the last call, what can be sent, and the
messages that were not read yet. -/
structure Connection where
  lastCallId : UInt64 := 0
  link : Link := .live
  unread : List Incoming := []

namespace Connection

/-- What a frame means to the call with this id. -/
def judgeFrame (m : Method) (callId : UInt64) (f : Frame) : Verdict m.Reply :=
  if f.callId ≠ callId then
    .skip [⟨.debug, "Dropping stale reply",
      [("stale", toString f.callId), ("expected", toString callId)]⟩]
  else if f.isOk then
    .settle ((f.bodyAs m.reply).mapError fun e => .protocol e.message)
      [⟨.trace, "Received reply",
        [("method", toString m.number), ("call_id", toString callId)]⟩]
  else
    .settle (.error (.remote f.status f.message)) []

/-- What a message means to the call with this id. -/
def judge (m : Method) (callId : UInt64) : Incoming → Verdict m.Reply
  | .binary bytes =>
    match Frame.decode bytes with
    | .error e => .settle (.error (.protocol e.message)) []
    | .ok f => judgeFrame m callId f
  | .text _ => .settle (.error (.protocol "unexpected message type")) []
  | .ping _ => .skip []
  | .pong _ => .skip []
  | .close => .settle (.error (.connection "connection closed by server")) []
  | .reset =>
    .settle (.error (.connection
      "WebSocket protocol error: Connection reset without closing handshake")) []
  | .ended => .settle (.error (.connection "connection closed")) []
  | .broken text => .settle (.error (.connection text)) []

/-- What became of a call: its answer, if a message decided it, the connection
then, and the log. -/
structure Received (α : Type) where
  answer? : Option (Except Failure α)
  connection : Connection
  log : List LogEntry

/-- Reads messages until one decides the call with this id, or none is left. -/
def receive (m : Method) (callId : UInt64) (c : Connection) : List Incoming → Received m.Reply
  | [] => ⟨none, { c with unread := [] }, []⟩
  | msg :: rest =>
    let c := { c with link := c.link.after msg }
    match judge m callId msg with
    | .settle answer log => ⟨some answer, { c with unread := rest }, log⟩
    | .skip log =>
      let later := receive m callId c rest
      { later with log := log ++ later.log }

/-! ## Calls -/

/-- What sits at the other end, and the way there: for each message that is sent, the messages
that come back in turn, or the reason why it could not be sent. -/
abbrev Peer (π : Type) : Type := List UInt8 → π → Except String (List Incoming) × π

/-- What is read of the messages of a peer.  On a way that is blocked the stream is over; a peer
that has left does nothing. -/
def Peer.read (peer : Peer π) : Peer (Way × π) := fun bytes (way, p) =>
  match way with
  | .gone => (.ok [], way, p)
  | .blocked => (.ok [.ended], way, (peer bytes p).2)
  | .clear =>
    match peer bytes p with
    | (.error text, p) => (.error text, way, p)
    | (.ok messages, p) =>
      let (messages, way) := Way.carry messages
      (.ok messages, way, p)

/-- The frame of a call. -/
def frame (m : Method) (callId : UInt64) (request : m.Request) : Frame :=
  .call m.number callId m.request request

/-- Sends a message, if the link lets it. -/
def send (c : Connection) (peer : Peer π) (bytes : List UInt8) (p : π) :
    Except String (List Incoming) × π :=
  match c.link.refusal? with
  | some text => (.error text, p)
  | none => peer bytes p

/-- A connection and its peer, as a service.  A call that no message decides
waits forever.  A call that cannot be sent has used its id all the same. -/
def service (peer : Peer π) : Service (Connection × π) where
  serve m request := fun (c, p) =>
    let callId := c.lastCallId + 1
    let c := { c with lastCallId := callId }
    let sending : LogEntry := ⟨.trace, "Sending call",
      [("method", toString m.number), ("call_id", toString callId),
        ("bytes", toString (size m.request request))]⟩
    match c.send peer (frame m callId request).encode p with
    | (.error text, p) => ⟨some (0, .error (.connection text)), (c, p), [sending]⟩
    | (.ok messages, p) =>
      let received := receive m callId c (c.unread ++ messages)
      ⟨received.answer?.map fun answer => (0, answer), (received.connection, p),
        sending :: received.log⟩

/-- Takes leave of the peer, which cannot be done where nothing can be sent. -/
def leave (c : Connection) : Except String Unit :=
  match c.link.refusal? with
  | some text => .error text
  | none => .ok ()

/-- The connection in a debug text. -/
def debugText (c : Connection) : String :=
  s!"FazConnection \x7b next_call_id: {c.lastCallId}, .. \x7d"

end Connection

end FazClient
