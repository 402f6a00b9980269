import FazClient.Proofs.Calls
import FazClient.Proofs.Operations

/-!
# FazClient.Proofs.Outgoing

What a client sends.  A connection that is open sends one message for an operation
whose request is within the limit, and that message carries exactly the request;
for a larger request it sends nothing and stays as it is.  Neither depends on what
the peer answered before.

* `Connection.received_serve` — what a call sends;
* `Operation.sends`, `Operation.sends_nothing` — the two cases of one operation;
* `operations_send_their_requests` — every operation of every sequence.
-/

namespace FazClient

open Wire

/-! ## What a peer receives -/

/-- A peer together with the messages that the connection put on the way to it, in order. -/
def Connection.Peer.recorded (peer : Connection.Peer π) :
    Connection.Peer (π × List (List UInt8)) := fun bytes (p, received) =>
  let (sent, p) := peer bytes p
  (sent, p, received ++ [bytes])

/-- The messages that were put on the way to a recorded peer. -/
def received (s : Connection × π × List (List UInt8)) : List (List UInt8) := s.2.2

/-- A call on an open connection sends the frame of the call, with the next id. -/
theorem Connection.received_serve (peer : Connection.Peer π) (m : Method) (request : m.Request)
    (s : Connection × π × List (List UInt8)) (h : s.1.link = .live) :
    received ((Connection.service peer.recorded).serve m request s).state =
      received s ++ [(frame m (s.1.lastCallId + 1) request).encode] := by
  obtain ⟨c, p, sent⟩ := s
  have hlink : c.link.refusal? = none := by
    rw [show c.link = .live from h]
    rfl
  simp only [service, send, hlink, Peer.recorded]
  cases (peer (frame m (c.lastCallId + 1) request).encode p).1 <;> rfl

/-! ## What a message carries -/

/-- What an operation asks for, in terms of its arguments. -/
def Operation.Asks : (o : Operation) → o.event.Request → Prop
  | registerUser username, r => RegisterUserRequest.username r = username
  | follow username toFollow, r =>
    FollowRequest.username r = username ∧ FollowRequest.toFollow r = toFollow
  | profile username, r => ProfileRequest.username r = username
  | post username text parent, r =>
    CawRequest.username r = username ∧ CawRequest.text r = text ∧
      (CawRequest.parentId r = none ↔ parent = "") ∧
      (parent ≠ "" → CawRequest.parentId r = some (Utf8.encode parent))
  | read cawId, r => ReadRequest.cawId r = Utf8.encode cawId

/-- The request of an operation asks for what the arguments say. -/
theorem Operation.asks_request (o : Operation) : o.Asks o.request := by
  cases o with
  | registerUser username => rfl
  | follow username toFollow => exact ⟨rfl, rfl⟩
  | profile username => rfl
  | post username text parent =>
    refine ⟨rfl, rfl, ?_, fun h => ?_⟩
    · simp [request, CawRequest.of]
    · simp [request, CawRequest.of, h]
  | read cawId => rfl

/-- The bytes are a call with this id that carries the request of the operation: a
frame around an envelope around a payload, each with the right tag. -/
def Operation.CarriedBy (o : Operation) (callId : UInt64) (bytes : List UInt8) : Prop :=
  ∃ (f : Frame) (envelope : EventRequest) (payload : Any) (request : o.event.Request),
    Frame.decode bytes = .ok f ∧ f.method = Method.event.number ∧ f.callId = callId ∧
    f.bodyAs .eventRequest = .ok envelope ∧
    envelope.eventType = o.event.value ∧ EventType.ofValue envelope.eventType = .ok o.event ∧
    envelope.payload = some payload ∧
    Payload.typeName? payload.typeUrl = some o.event.request.fullName ∧
    Payload.unpack o.event.request payload = .ok request ∧
    request = o.request ∧ o.Asks request

/-- A request within the limit. -/
def Operation.Fits (o : Operation) : Prop :=
  (encode (.payload o.event.request) o.request).length ≤ 4194304

theorem Operation.fits_iff (o : Operation) :
    o.Fits ↔ (encode (.payload o.event.request) o.request).length ≤ Payload.limit :=
  Iff.rfl

/-- The envelope that an operation sends. -/
def Operation.envelope (o : Operation) : EventRequest :=
  ⟨o.event.value,
    some ⟨Payload.typeUrl o.event.request, encode (.payload o.event.request) o.request⟩⟩

/-- The frame around the envelope of an operation carries its request. -/
theorem Operation.carriedBy_frame {o : Operation} (h : o.Fits) (callId : UInt64) :
    o.CarriedBy callId (Connection.frame .event callId o.envelope).encode := by
  have hshort : Method.event.Short o.envelope := EventRequest.short o.event (o.fits_iff.1 h)
  exact ⟨_, o.envelope, _, o.request, Connection.decode_frame callId hshort, rfl, rfl,
    Connection.bodyAs_frame callId hshort, rfl, EventType.ofValue_value o.event, rfl,
    Payload.typeName?_typeUrl o.event.request, Payload.unpack_pack (o.fits_iff.1 h), rfl,
    o.asks_request⟩

/-! ## One operation -/

section

variable (peer : Connection.Peer π) (deadline : Nat) (o : Operation)
  (s : Connection × π × List (List UInt8))

/-- A client of a connection whose peer is recorded. -/
def recordedClient : Client (Connection × π × List (List UInt8)) :=
  ⟨Connection.service peer.recorded, deadline⟩

/-- On an open connection, an operation whose request is within the limit sends one
message, which carries it. -/
theorem Operation.sends (hopen : s.1.link = .live) (hfits : o.Fits) :
    ∃ bytes, received ((o.run (recordedClient peer deadline)).run s).state = received s ++ [bytes] ∧
      o.CarriedBy (s.1.lastCallId + 1) bytes := by
  have hpack := Payload.pack_eq_ok (o.fits_iff.1 hfits)
  have hstate : ((o.run (recordedClient peer deadline)).run s).state =
      ((Connection.service peer.recorded).serve .event o.envelope s).state := by
    rw [o.state_run, Client.state_invoke_of_ok hpack]
    rfl
  refine ⟨_, ?_, o.carriedBy_frame hfits (s.1.lastCallId + 1)⟩
  rw [hstate, Connection.received_serve peer .event o.envelope s hopen]

/-- An operation whose request is above the limit changes nothing, and its event
fails for that reason. -/
theorem Operation.sends_nothing (hfits : ¬ o.Fits) :
    ((o.run (recordedClient peer deadline)).run s).state = s ∧
      ∃ f, (((recordedClient peer deadline).invoke o.event o.request).run s).result =
        .error (.encode f) := by
  have hlimit : Payload.limit < (encode (.payload o.event.request) o.request).length :=
    Nat.lt_of_not_le fun h => hfits (o.fits_iff.2 h)
  obtain ⟨text, hpack⟩ := Payload.pack_eq_error hlimit
  have hrun := Client.run_invoke_of_error (c := recordedClient peer deadline) hpack s
  constructor
  · rw [o.state_run, hrun]
  · exact ⟨.encoding text, by rw [hrun]⟩

end

/-! ## Sequences of operations -/

/-- One operation of a sequence, with the states before and after it. -/
structure Performed (σ : Type) where
  operation : Operation
  before : σ
  after : σ

/-- Performs operations one after the other, whatever each gives back. -/
def Operation.performAll (c : Client σ) : List Operation → σ → List (Performed σ)
  | [], _ => []
  | o :: os, s =>
    let after := ((o.run c).run s).state
    ⟨o, s, after⟩ :: performAll c os after

/-- What holds of an operation from any state holds of every operation of a
sequence. -/
theorem Operation.forall_mem_performAll {c : Client σ} {P : Performed σ → Prop}
    (h : ∀ o s, P ⟨o, s, ((o.run c).run s).state⟩) (os : List Operation) (s : σ) :
    ∀ x ∈ performAll c os s, P x := by
  induction os generalizing s with
  | nil => simp [performAll]
  | cons o os ih =>
    intro x hx
    rw [performAll, List.mem_cons] at hx
    obtain rfl | hx := hx
    · exact h o s
    · exact ih _ x hx

/-- **Outgoing messages**: whatever the peer answers, in every sequence of operations
each one whose request takes at most 4194304 bytes sends exactly one message while the
connection is open, and that message is a call with the next id that carries the
request made from the arguments; each larger one sends nothing, leaves the connection
as it was, and its event fails because it cannot be encoded. -/
theorem operations_send_their_requests (peer : Connection.Peer π) (deadline : Nat)
    (os : List Operation) (start : Connection × π × List (List UInt8)) :
    ∀ x ∈ Operation.performAll (recordedClient peer deadline) os start,
      (x.operation.Fits → x.before.1.link = .live →
        ∃ bytes, received x.after = received x.before ++ [bytes] ∧
          x.operation.CarriedBy (x.before.1.lastCallId + 1) bytes) ∧
      (¬ x.operation.Fits →
        x.after = x.before ∧
          ∃ f, (((recordedClient peer deadline).invoke x.operation.event
            x.operation.request).run x.before).result = .error (.encode f)) := by
  refine Operation.forall_mem_performAll (fun o s => ?_) os start
  constructor
  · intro hfits hopen
    exact o.sends peer deadline s hopen hfits
  · intro hfits
    exact o.sends_nothing peer deadline s hfits

/-- A post after a call that a garbled message ended, on a connection that holds a
pong still. -/
theorem operations_send_their_requests_after_garbage :
    let peer : Connection.Peer Unit := fun _ p => (.ok [.text "hi", .pong []], p)
    let start : Connection × Unit × List (List UInt8) := (⟨7, .live, [.ping [1]]⟩, (), [])
    let before := (((Operation.follow "a" "b").run (recordedClient peer 100)).run start).state
    let post := Operation.post "a" "hi" ""
    before.1 = ⟨8, .live, [.pong []]⟩ ∧ post.Fits ∧
      ∃ bytes, received ((post.run (recordedClient peer 100)).run before).state =
        received before ++ [bytes] ∧ post.CarriedBy (before.1.lastCallId + 1) bytes := by
  intro peer start before post
  have hbefore : before.1 = ⟨8, .live, [.pong []]⟩ := by rfl
  have hfits : post.Fits := by
    rw [Operation.Fits, length_encode]
    decide +kernel
  have h := operations_send_their_requests peer 100 [.follow "a" "b", post] start
    ⟨post, before, ((post.run (recordedClient peer 100)).run before).state⟩
    (List.mem_cons_of_mem _ List.mem_cons_self)
  exact ⟨hbefore, hfits, h.1 hfits (by rw [hbefore])⟩

end FazClient
