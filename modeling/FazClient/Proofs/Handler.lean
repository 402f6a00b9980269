import FazClient.Proofs.Calls
import FazClient.Proofs.Receiving

/-!
# FazClient.Proofs.Handler

A state machine that handles calls, seen in two ways: called directly, as a service,
and at the other end of a connection, as a peer that reads frames and answers with
frames.  The peer may also chatter, that is send stale messages around its replies.  A frame
that carries too much is not read, which only the caller at the end of a connection sees.

* `Incoming.Readable` — which messages are read (`Incoming.fault?_eq_none_iff`);
* `Handler.service`, `Handler.peer` — the two views;
* `Handler.respond_frame` — the peer answers the frame of a call as the handler does;
* `Handler.serve_peer` — one call over a connection, compared with a direct one;
* `Handler.serve_peer_of_overlong` — one call whose reply carries too much.
-/

namespace FazClient

/-! ## State machines that handle calls -/

/-- A call that was turned down: with a status that is not the one of success. -/
structure Rejection where
  status : Int32
  message : String
  status_ne : status ≠ Frame.statusOk

/-- A rejection as the caller sees it. -/
def Rejection.failure (r : Rejection) : Failure := .remote r.status r.message

/-- A state machine that answers each call with a reply or a rejection. -/
structure Handler (π : Type) where
  handle : (m : Method) → m.Request → π → Except Rejection m.Reply × π

/-- The method with this number. -/
def Method.ofNumber? (n : UInt32) : Option Method :=
  [hook, unhook, event].find? (·.number = n)

@[simp] theorem Method.ofNumber?_number (m : Method) : ofNumber? m.number = some m := by
  cases m <;> rfl

/-- Other messages around the replies of a peer: those before and those after the reply
to the `n`-th call, counted from 1.  Those after number 0 come before all calls. -/
structure Chatter where
  before : Nat → List Incoming
  after : Nat → List Incoming

/-- A message that carries so little that it can be read: 16 MiB at most, and 125 bytes in a
ping or a pong. -/
def Incoming.Readable : Incoming → Prop
  | binary bytes => bytes.length ≤ 16777216
  | text content => content.utf8ByteSize ≤ 16777216
  | ping payload => payload.length ≤ 125
  | pong payload => payload.length ≤ 125
  | close | reset | ended | broken _ => True

/-- A message that can be read and decides nothing for the call with this id. -/
def Incoming.Idle (callId : UInt64) (msg : Incoming) : Prop :=
  msg.Readable ∧ msg.Stale callId

/-- In a session of this many calls, the messages before a reply do not decide the call
that it answers, and those after it do not decide the next one. -/
def Chatter.Stale (noise : Chatter) (calls : Nat) : Prop :=
  ∀ n ≤ calls, (∀ msg ∈ noise.before n, msg.Idle (.ofNat n)) ∧
    ∀ msg ∈ noise.after n, msg.Idle (.ofNat (n + 1))

/-- Pings, pongs and copies of the replies to earlier calls are stale, unless they carry too much
or the ids run out. -/
theorem Chatter.stale_of_earlier {noise : Chatter} {calls : Nat} (hcalls : calls + 1 < 2 ^ 64)
    (hbefore : ∀ n ≤ calls, ∀ msg ∈ noise.before n, msg.Readable ∧
      (msg.content = .idle ∨ ∃ f, msg.content = .frame f ∧ f.callId.toNat < n))
    (hafter : ∀ n ≤ calls, ∀ msg ∈ noise.after n, msg.Readable ∧
      (msg.content = .idle ∨ ∃ f, msg.content = .frame f ∧ f.callId.toNat ≤ n)) :
    noise.Stale calls := by
  have hne : ∀ {i : UInt64} {n : Nat}, n < 2 ^ 64 → i.toNat < n → i ≠ .ofNat n := by
    rintro i n hn hlt rfl
    rw [UInt64.toNat_ofNat_of_lt' hn] at hlt
    exact Nat.lt_irrefl n hlt
  intro n hn
  constructor
  · intro msg hmsg
    obtain ⟨hfits, hidle | ⟨f, hf, hid⟩⟩ := hbefore n hn msg hmsg
    · exact ⟨hfits, .inl hidle⟩
    · exact ⟨hfits, .inr ⟨f, hf, hne (by omega) hid⟩⟩
  · intro msg hmsg
    obtain ⟨hfits, hidle | ⟨f, hf, hid⟩⟩ := hafter n hn msg hmsg
    · exact ⟨hfits, .inl hidle⟩
    · exact ⟨hfits, .inr ⟨f, hf, hne (by omega) (by omega)⟩⟩

namespace Handler

/-- The handler called directly.  Every answer comes at once, so that it is in time
for every deadline. -/
def service (h : Handler π) : Service π where
  serve m request p :=
    let (outcome, p) := h.handle m request p
    ⟨some (0, outcome.mapError Rejection.failure), p, []⟩

/-- The frame that answers a call. -/
def replyFrame (call : Frame) {m : Method} : Except Rejection m.Reply → Frame
  | .ok reply => .reply call m.reply reply
  | .error r => .failure call r.status r.message

/-- Reads a message as a call and answers it with a frame.  What is no call of a
known method is not answered. -/
def respond (h : Handler π) (bytes : List UInt8) (p : π) : Option Frame × π :=
  match Frame.decode bytes with
  | .error _ => (none, p)
  | .ok call =>
    match Method.ofNumber? call.method with
    | none => (none, p)
    | some m =>
      match call.bodyAs m.request with
      | .error _ => (none, p)
      | .ok request =>
        let (outcome, p) := h.handle m request p
        (some (replyFrame call outcome), p)

/-- What the handler sends for each message, with the number of the messages that it
received. -/
def answers (h : Handler π) (noise : Chatter) : Connection.Peer (π × Nat) := fun bytes (p, n) =>
  let (answer, p) := h.respond bytes p
  let reply := answer.toList.map fun f => .binary f.encode
  (.ok (noise.before (n + 1) ++ reply ++ noise.after (n + 1)), p, n + 1)

/-- The handler at the other end of a connection, which does not read what carries too
much. -/
def peer (h : Handler π) (noise : Chatter) : Connection.Peer (Way × π × Nat) :=
  (h.answers noise).read

/-- The frame with which the handler answers the `n`-th call, counted from 1. -/
def reply (h : Handler π) (n : Nat) (m : Method) (request : m.Request) (p : π) : Frame :=
  replyFrame (Connection.frame m (.ofNat n) request) (h.handle m request p).1

/-- The frames with which the handler answers these calls, one after the other, where so many
calls came before. -/
def replies (h : Handler π) : (before : Nat) → π → List Call → List Frame
  | _, _, [] => []
  | n, p, call :: calls =>
    h.reply (n + 1) call.method call.request p ::
      h.replies (n + 1) (h.handle call.method call.request p).2 calls

end Handler

/-! ## Replies -/

/-- The body of a frame is no longer than the frame. -/
theorem Frame.length_body_le (f : Frame) : f.body.length ≤ f.encode.length := by
  have hput : f.body.length ≤ Wire.sizeAll (Wire.putBytes 3 f.body) := by
    by_cases hbody : f.body = []
    · simp [hbody]
    · rw [Wire.putBytes, if_neg hbody]
      simp only [Wire.sizeAll, Wire.Record.size, Wire.delimitedSize]
      omega
  rw [Frame.encode, length_encode]
  simp only [size, Wire.Schema.toRecords, toRecords, Wire.sizeAll_append]
  omega

namespace Handler

variable {h : Handler π} {m : Method}

/-- A reply frame says to the caller what the handler decided. -/
theorem outcome_replyFrame (call : Frame) (outcome : Except Rejection m.Reply)
    (hlt : (replyFrame call outcome).encode.length < 2 ^ 63) :
    (replyFrame call outcome).outcome m = outcome.mapError Rejection.failure := by
  cases outcome with
  | ok reply =>
    simp only [replyFrame] at hlt ⊢
    have hbody := Frame.length_body_le (.reply call m.reply reply)
    have hread : (Frame.reply call m.reply reply).bodyAs m.reply = .ok reply :=
      Frame.bodyAs_encode m.reply reply rfl (by omega)
    have hok : (Frame.reply call m.reply reply).isOk := decide_eq_true rfl
    rw [Frame.outcome, if_pos hok, hread]
    rfl
  | error r =>
    simp only [replyFrame]
    have hok : ¬ (Frame.failure call r.status r.message).isOk := by
      rw [Frame.isOk, decide_eq_true_eq]
      exact r.status_ne
    rw [Frame.outcome, if_neg hok]
    rfl

/-- A reply frame arrives as that frame. -/
theorem content_replyFrame (call : Frame) (outcome : Except Rejection m.Reply)
    (hlt : (replyFrame call outcome).encode.length < 2 ^ 63) :
    (Incoming.binary (replyFrame call outcome).encode).content =
      .frame (replyFrame call outcome) := by
  have hversion : (replyFrame call outcome).version = Frame.currentVersion := by
    cases outcome <;> rfl
  exact Incoming.content_binary (Frame.decode_encode_of_current hversion (by omega))

theorem callId_replyFrame (call : Frame) (outcome : Except Rejection m.Reply) :
    (replyFrame call outcome).callId = call.callId := by
  cases outcome <;> rfl

/-- The frame of a call is answered as the handler decides. -/
theorem respond_frame (callId : UInt64) {request : m.Request} (hshort : m.Short request) (p : π) :
    h.respond (Connection.frame m callId request).encode p =
      (some (replyFrame (Connection.frame m callId request) (h.handle m request p).1),
        (h.handle m request p).2) := by
  have hmethod : Method.ofNumber? (Connection.frame m callId request).method = some m :=
    Method.ofNumber?_number m
  simp only [respond, Connection.decode_frame callId hshort, hmethod,
    Connection.bodyAs_frame callId hshort]

end Handler

/-! ## Messages that are read -/

theorem Incoming.Idle.ne_reset {callId : UInt64} {msg : Incoming} (h : msg.Idle callId) :
    msg ≠ .reset := by
  rintro rfl
  obtain ⟨-, h | ⟨f, h, -⟩⟩ := h <;> contradiction

/-- The reader finds no fault with a message just if it carries little enough. -/
theorem Incoming.fault?_eq_none_iff {msg : Incoming} : msg.fault? = none ↔ msg.Readable := by
  have hfault : msg.fault? = none ↔
      msg.size ≤ maxSize ∧ (msg.isControl = true → msg.size ≤ maxControlSize) := by
    rw [fault?]
    by_cases hsize : maxSize < msg.size
    · simp [hsize, Nat.not_le.2 hsize]
    · simp [hsize, Nat.not_lt.1 hsize]
  rw [hfault]
  cases msg with
  | binary _ | text _ => simp [size, isControl, maxSize, Readable]
  | ping payload | pong payload =>
    simp only [size, isControl, maxSize, maxControlSize, Readable, true_imp_iff]
    omega
  | close | reset | ended | broken _ => simp [size, isControl, maxSize, Readable]

theorem Incoming.fault?_binary_of_lt {bytes : List UInt8} (h : 16777216 < bytes.length) :
    (binary bytes).fault? =
      some s!"Space limit exceeded: Message too long: {bytes.length} > {maxSize}" :=
  if_pos h

/-- Messages that can be read come through, and then what follows them. -/
theorem Way.carry_append {front : List Incoming}
    (h : ∀ msg ∈ front, msg.Readable ∧ msg ≠ .reset) (rest : List Incoming) :
    carry (front ++ rest) = (front ++ (carry rest).1, (carry rest).2) := by
  induction front with
  | nil => rfl
  | cons msg front ih =>
    obtain ⟨hfits, hne⟩ := h msg List.mem_cons_self
    rw [List.cons_append, carry.eq_3 _ _ hne, Incoming.fault?_eq_none_iff.2 hfits,
      ih fun msg' hmsg' => h msg' (List.mem_cons_of_mem _ hmsg')]
    rfl

/-! ## One call -/

namespace Handler

/-- A connection to the peer, next to the handler in the same state, with this many calls still
to come. -/
structure Linked (noise : Chatter) (calls : Nat) (a : Connection × Way × π × Nat) (p : π) :
    Prop where
  lastCallId : a.1.lastCallId = .ofNat a.2.2.2
  live : a.1.link = .live
  unread : ∀ msg ∈ a.1.unread, msg.Idle (.ofNat (a.2.2.2 + 1))
  clear : a.2.1 = .clear
  state : a.2.2.1 = p
  stale : noise.Stale (a.2.2.2 + calls)

section

variable {h : Handler π} {m : Method} {noise : Chatter} {request : m.Request} {calls : Nat}
  {a : Connection × Way × π × Nat} {p : π}

/-- What the peer sends for the next call: its reply, after messages that decide nothing. -/
theorem Linked.serve_eq (hlink : Linked noise (calls + 1) a p) (hshort : m.Short request) :
    let n := a.2.2.2 + 1
    let messages := Way.carry (.binary (h.reply n m request p).encode :: noise.after n)
    let received := Connection.receive m (.ofNat n) { a.1 with lastCallId := .ofNat n } messages.1
    let served := (Connection.service (h.peer noise)).serve m request a
    served.answer = received.answer?.map (fun answer => (0, answer)) ∧
      served.state = (received.connection, messages.2, (h.handle m request p).2, n) := by
  obtain ⟨c, way, q, n⟩ := a
  obtain ⟨hid, hlive, hunread, rfl, rfl, hstale⟩ := hlink
  simp only at hid hlive hunread hstale ⊢
  have hbefore := (hstale (n + 1) (by omega)).1
  have hcarry := Way.carry_append
    (fun msg hmsg => ⟨(hbefore msg hmsg).1, (hbefore msg hmsg).ne_reset⟩)
    (.binary (h.reply (n + 1) m request q).encode :: noise.after (n + 1))
  have hnext : c.lastCallId + 1 = .ofNat (n + 1) := by
    rw [hid, UInt64.ofNat_add]
    rfl
  have hopen : c.link.refusal? = none := by
    rw [hlive]
    rfl
  have hpeer : h.peer noise (Connection.frame m (.ofNat (n + 1)) request).encode (.clear, q, n) =
      (.ok (noise.before (n + 1) ++ (Way.carry
        (.binary (h.reply (n + 1) m request q).encode :: noise.after (n + 1))).1), (Way.carry
        (.binary (h.reply (n + 1) m request q).encode :: noise.after (n + 1))).2,
        (h.handle m request q).2, n + 1) := by
    rw [reply] at hcarry ⊢
    simp only [peer, Connection.Peer.read, answers, respond_frame _ hshort, Option.toList_some,
      List.map_cons, List.map_nil, List.append_assoc, List.singleton_append, hcarry]
  -- The call reads what was left over and what precedes its reply, and then the reply.
  have hstale : ∀ msg ∈ c.unread ++ noise.before (n + 1), msg.Stale (.ofNat (n + 1)) := by
    intro msg hmsg
    rcases List.mem_append.1 hmsg with hmsg | hmsg
    · exact (hunread msg hmsg).2
    · exact (hbefore msg hmsg).2
  have hread := Connection.receive_append (m := m) (c.unread ++ noise.before (n + 1)) (Way.carry
    (.binary (h.reply (n + 1) m request q).encode :: noise.after (n + 1))).1 hstale
    { c with lastCallId := .ofNat (n + 1) }
  simp only [Connection.service, Connection.send, hopen, hnext, hpeer, ← List.append_assoc, hread,
    and_self]

/-- A call over the connection is answered as it is directly, and leaves the peer in
the state that the handler is left in. -/
theorem serve_peer (hlink : Linked noise (calls + 1) a p) (hshort : m.Short request)
    (hfits : (h.reply (a.2.2.2 + 1) m request p).encode.length ≤ 16777216) :
    let served := (Connection.service (h.peer noise)).serve m request a
    served.answer = (h.service.serve m request p).answer ∧
      Linked noise calls served.state (h.service.serve m request p).state ∧
      served.state.2.2.2 = a.2.2.2 + 1 := by
  intro served
  obtain ⟨hanswer, hstate⟩ := hlink.serve_eq (h := h) hshort
  have hafter := (hlink.stale (a.2.2.2 + 1) (by omega)).2
  -- The reply can be read, and so can what follows it.
  have hall : ∀ msg ∈ .binary (h.reply (a.2.2.2 + 1) m request p).encode ::
      noise.after (a.2.2.2 + 1), msg.Readable ∧ msg ≠ .reset := by
    rintro msg (_ | ⟨_, hmsg⟩)
    · exact ⟨hfits, nofun⟩
    · exact ⟨(hafter msg hmsg).1, (hafter msg hmsg).ne_reset⟩
  have hcarry := Way.carry_append hall []
  rw [List.append_nil, Way.carry, List.append_nil] at hcarry
  have hlt : (h.reply (a.2.2.2 + 1) m request p).encode.length < 2 ^ 63 := by omega
  obtain ⟨log, hjudge⟩ : ∃ log, Connection.judge m (.ofNat (a.2.2.2 + 1))
      (.binary (h.reply (a.2.2.2 + 1) m request p).encode) =
        .settle ((h.handle m request p).1.mapError Rejection.failure) log := by
    rw [reply, Connection.judge_frame (content_replyFrame _ _ hlt),
      ← outcome_replyFrame (Connection.frame m (.ofNat (a.2.2.2 + 1)) request) _ hlt]
    exact Connection.judgeFrame_of_eq (callId_replyFrame _ _)
  rw [hcarry, Connection.receive_of_settle hjudge] at hanswer hstate
  refine ⟨hanswer, ?_, congrArg (fun s => s.2.2.2) hstate⟩
  rw [hstate]
  refine ⟨rfl, hlink.live, hafter, rfl, rfl, ?_⟩
  rw [Nat.add_assoc, Nat.add_comm 1]
  exact hlink.stale

/-- A call whose reply carries too much fails over the connection, whatever the handler says,
which is left in the same state all the same. -/
theorem serve_peer_of_overlong (hlink : Linked noise (calls + 1) a p) (hshort : m.Short request)
    (hlong : 16777216 < (h.reply (a.2.2.2 + 1) m request p).encode.length) :
    let served := (Connection.service (h.peer noise)).serve m request a
    (∃ text, served.answer = some (0, .error (.connection text))) ∧
      served.state.2.2.1 = (h.service.serve m request p).state := by
  intro served
  obtain ⟨hanswer, hstate⟩ := hlink.serve_eq (h := h) hshort
  have hcarry : ∃ text, Way.carry (.binary (h.reply (a.2.2.2 + 1) m request p).encode ::
      noise.after (a.2.2.2 + 1)) = ([.broken text], .blocked) := by
    simp only [Way.carry, Incoming.fault?_binary_of_lt hlong]
    exact ⟨_, rfl⟩
  obtain ⟨text, hcarry⟩ := hcarry
  rw [hcarry] at hanswer hstate
  exact ⟨⟨text, hanswer⟩, congrArg (fun s => s.2.2.1) hstate⟩

end

end Handler

end FazClient
