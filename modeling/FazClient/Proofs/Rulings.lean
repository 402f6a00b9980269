import FazClient.Proofs.Receiving

/-!
# FazClient.Proofs.Rulings

One message decides a call.  `Incoming.ruling` is the table of what each message means to
the call that waits, in the order in which a message is looked at; a call reads up to the
first message with a ruling, and that ruling is its answer.

* `Incoming.ruling_eq_none_iff` — the messages that rule nothing;
* `Connection.judge_of_ruling` — the verdict on a message is its ruling;
* `Connection.receive_cases` — so reading ends at the first ruling, or never;
* `Connection.serve_of_sent`, `Connection.serve_of_unsent` — a call that is sent is answered by
  what is read for it, and one that is not by the reason;
* `one_message_decides_a_call` — what this means for a call.
-/

namespace FazClient

/-! ## Rulings -/

/-- What a message rules about the call with this id, if it rules anything.  A frame is
looked at by its version first, then by its id, then by its status, and by its body at
last. -/
def Incoming.ruling (m : Method) (callId : UInt64) : Incoming → Option (Except Failure m.Reply)
  | .ping _ => none
  | .pong _ => none
  | .text _ => some (.error (.protocol "unexpected message type"))
  | .close => some (.error (.connection "connection closed by server"))
  | .reset => some (.error (.connection
      "WebSocket protocol error: Connection reset without closing handshake"))
  | .ended => some (.error (.connection "connection closed"))
  | .broken reason => some (.error (.connection reason))
  | .binary bytes =>
    match decode .frame bytes with
    | .error e => some (.error (.protocol (CodecError.decoding e.message).message))
    | .ok f =>
      if 1 < Frame.version f then
        some (.error (.protocol (CodecError.unsupportedVersion (Frame.version f) 1).message))
      else if Frame.callId f ≠ callId then none
      else if Frame.status f ≠ 0 then some (.error (.remote (Frame.status f) (Frame.message f)))
      else
        match decode m.reply (Frame.body f) with
        | .error e => some (.error (.protocol (CodecError.decoding e.message).message))
        | .ok reply => some (.ok reply)

namespace Incoming

variable {m : Method} {callId : UInt64} {bytes : List UInt8}

/-- What is no frame of a version that is understood rules that the call fails. -/
theorem ruling_of_error {e : CodecError} (h : Frame.decode bytes = .error e) :
    (binary bytes).ruling m callId = some (.error (.protocol e.message)) := by
  rw [Frame.decode] at h
  cases hdecode : decode .frame bytes with
  | error e' =>
    simp only [hdecode, Except.error.injEq] at h
    simp only [ruling, hdecode, h]
  | ok f =>
    simp only [hdecode] at h
    split at h
    · next hversion =>
      cases h
      simp only [ruling, hdecode]
      exact if_pos hversion
    · contradiction

/-- A frame rules the call with its id, and no other. -/
theorem ruling_of_frame {f : Frame} (h : Frame.decode bytes = .ok f) :
    (binary bytes).ruling m callId =
      if f.callId = callId then some (f.outcome m) else none := by
  rw [Frame.decode] at h
  cases hdecode : decode .frame bytes with
  | error e' => simp [hdecode] at h
  | ok g =>
    simp only [hdecode] at h
    split at h
    · contradiction
    · next hversion =>
      cases h
      have hold : ¬ 1 < f.version := hversion
      simp only [ruling, hdecode, if_neg hold, Frame.outcome, Frame.isOk, Frame.statusOk,
        Frame.bodyAs]
      by_cases hid : f.callId = callId
      · by_cases hstatus : f.status = 0
        · simp only [hid, hstatus, ne_eq, not_true, if_false, if_true, decide_true]
          cases decode m.reply f.body <;> rfl
        · simp [hid, hstatus]
      · simp [hid]

/-- A message rules nothing just if it is a ping, a pong or the reply to another call. -/
theorem ruling_eq_none_iff {msg : Incoming} :
    msg.ruling m callId = none ↔
      (∃ payload, msg = .ping payload) ∨ (∃ payload, msg = .pong payload) ∨
        ∃ bytes f, msg = .binary bytes ∧ Frame.decode bytes = .ok f ∧ f.callId ≠ callId := by
  cases msg with
  | binary bytes =>
    cases hdecode : Frame.decode bytes with
    | error e => simp [ruling_of_error hdecode, hdecode]
    | ok f => simp [ruling_of_frame hdecode, hdecode]
  | ping _ | pong _ | text _ | close | reset | ended | broken _ => simp [ruling]

end Incoming

namespace Connection

variable {m : Method} {callId : UInt64}

/-! ## Reading up to a ruling -/

/-- What a message rules is the verdict on it. -/
theorem judge_of_ruling (m : Method) (callId : UInt64) (msg : Incoming) :
    ∃ log, judge m callId msg =
      match msg.ruling m callId with
      | none => .skip log
      | some answer => .settle answer log := by
  cases msg with
  | binary bytes =>
    cases hdecode : Frame.decode bytes with
    | error e =>
      rw [Incoming.ruling_of_error hdecode, judge, hdecode]
      exact ⟨[], rfl⟩
    | ok f =>
      rw [Incoming.ruling_of_frame hdecode, judge_frame (Incoming.content_binary hdecode)]
      by_cases hid : f.callId = callId
      · rw [if_pos hid]
        exact judgeFrame_of_eq hid
      · rw [if_neg hid]
        exact judgeFrame_of_ne hid
  | ping _ | pong _ | text _ | close | reset | ended | broken _ => exact ⟨[], rfl⟩

/-- Reading ends at the first message with a ruling, or all is read and none has one. -/
theorem receive_cases (m : Method) (callId : UInt64) (c : Connection)
    (messages : List Incoming) :
    let received := receive m callId c messages
    (received.answer? = none ∧ received.connection.unread = [] ∧
        ∀ msg ∈ messages, msg.ruling m callId = none) ∨
      ∃ front msg answer, messages = front ++ msg :: received.connection.unread ∧
        (∀ x ∈ front, x.ruling m callId = none) ∧ msg.ruling m callId = some answer ∧
        received.answer? = some answer := by
  induction messages generalizing c with
  | nil => exact .inl ⟨rfl, rfl, by simp⟩
  | cons msg rest ih =>
    obtain ⟨log, hjudge⟩ := judge_of_ruling m callId msg
    cases hruling : msg.ruling m callId with
    | none =>
      simp only [hruling] at hjudge
      simp only [receive, hjudge]
      obtain ⟨hanswer, hunread, hnone⟩ | ⟨front, msg', answer, hrest, hfront, hsome, hanswer⟩ :=
        ih { c with link := c.link.after msg }
      · exact .inl ⟨hanswer, hunread, by simpa [hruling] using hnone⟩
      · exact .inr ⟨msg :: front, msg', answer, by simpa using hrest,
          by simpa [hruling] using hfront, hsome, hanswer⟩
    | some answer =>
      simp only [hruling] at hjudge
      rw [receive_of_settle hjudge]
      exact .inr ⟨[], msg, answer, rfl, by simp, hruling, rfl⟩

/-- Reading leaves the id of the call as it is. -/
theorem lastCallId_receive (c : Connection) (messages : List Incoming) :
    (receive m callId c messages).connection.lastCallId = c.lastCallId := by
  induction messages generalizing c with
  | nil => rfl
  | cons msg rest ih =>
    simp only [receive]
    cases judge m callId msg with
    | skip log => exact ih _
    | settle answer log => rfl

/-- A call that is sent is answered by what is read for it. -/
theorem serve_of_sent (peer : Peer π) (request : m.Request) {c : Connection} {p : π}
    (hopen : c.link.refusal? = none) {messages : List Incoming}
    (hsent : (peer (frame m (c.lastCallId + 1) request).encode p).1 = .ok messages) :
    let served := (service peer).serve m request (c, p)
    let received := receive m (c.lastCallId + 1) { c with lastCallId := c.lastCallId + 1 }
      (c.unread ++ messages)
    served.answer = received.answer?.map (fun answer => (0, answer)) ∧
      served.state.1 = received.connection := by
  simp only [service, send, hopen]
  split
  · next hfails => exact nomatch hsent.symm.trans (congrArg Prod.fst hfails)
  · next hgoes =>
    obtain rfl := Except.ok.inj (hsent.symm.trans (congrArg Prod.fst hgoes))
    exact ⟨rfl, rfl⟩

/-- A call that is not sent fails for that reason, and reads nothing. -/
theorem serve_of_unsent (peer : Peer π) (request : m.Request) {c : Connection} {p : π}
    (hopen : c.link.refusal? = none) {text : String}
    (hunsent : (peer (frame m (c.lastCallId + 1) request).encode p).1 = .error text) :
    let served := (service peer).serve m request (c, p)
    served.answer = some (0, .error (.connection text)) ∧
      served.state.1 = { c with lastCallId := c.lastCallId + 1 } := by
  simp only [service, send, hopen]
  split
  · next hfails =>
    obtain rfl := Except.error.inj (hunsent.symm.trans (congrArg Prod.fst hfails))
    exact ⟨rfl, rfl⟩
  · next hgoes => exact nomatch hunsent.symm.trans (congrArg Prod.fst hgoes)

end Connection

/-! ## Calls that are sent -/

/-- **One message decides a call**: on a connection that can send and has ids left, whatever
the peer does, a call takes the next id.  If its message cannot be sent, that is the answer, and
nothing is read.  If it is sent, the call reads the messages up to the first one that rules
something about this id.  That ruling is the answer, and all that follows is left for
the next call; only where nothing is ruled does the call go on waiting.  The messages that
rule nothing are pings, pongs and the replies to other calls. -/
theorem one_message_decides_a_call (peer : Connection.Peer π) (m : Method) (request : m.Request)
    (c : Connection) (p : π) (hopen : c.link.refusal? = none)
    (hids : c.lastCallId.toNat + 1 < UInt64.size) :
    let callId := c.lastCallId + 1
    let sent := (peer (Connection.frame m callId request).encode p).1
    let served := (Connection.service peer).serve m request (c, p)
    served.state.1.lastCallId.toNat = c.lastCallId.toNat + 1 ∧
      (∀ text, sent = .error text →
        served.answer = some (0, .error (.connection text)) ∧
          served.state.1.unread = c.unread) ∧
      (∀ messages, sent = .ok messages →
        let incoming := c.unread ++ messages
        (∀ delay answer, served.answer = some (delay, answer) →
          ∃ front msg, incoming = front ++ msg :: served.state.1.unread ∧
            (∀ x ∈ front, x.ruling m callId = none) ∧ msg.ruling m callId = some answer) ∧
        (served.answer = none ↔ ∀ msg ∈ incoming, msg.ruling m callId = none)) ∧
      ∀ msg : Incoming, msg.ruling m callId = none ↔
        (∃ payload, msg = .ping payload) ∨ (∃ payload, msg = .pong payload) ∨
          ∃ bytes f, msg = .binary bytes ∧ Frame.decode bytes = .ok f ∧ f.callId ≠ callId := by
  intro callId sent served
  have hnext : callId.toNat = c.lastCallId.toNat + 1 := by
    rw [UInt64.toNat_add]
    exact Nat.mod_eq_of_lt hids
  have hid : served.state.1.lastCallId = callId := by
    cases hsent : sent with
    | error text => rw [(Connection.serve_of_unsent peer request hopen hsent).2]
    | ok messages =>
      rw [(Connection.serve_of_sent peer request hopen hsent).2, Connection.lastCallId_receive]
  refine ⟨by rw [hid, hnext], fun text hunsent => ?_, fun messages hsent => ?_,
    fun _ => Incoming.ruling_eq_none_iff⟩
  · obtain ⟨hanswer, hconnection⟩ := Connection.serve_of_unsent peer request hopen hunsent
    exact ⟨hanswer, by rw [hconnection]⟩
  · intro incoming
    obtain ⟨hanswer, hconnection⟩ := Connection.serve_of_sent peer request hopen hsent
    have hcases := Connection.receive_cases m callId { c with lastCallId := callId } incoming
    rw [hanswer, hconnection]
    generalize Connection.receive m _ _ _ = received at hcases ⊢
    obtain ⟨hnone, -, hall⟩ | ⟨front, msg, ruled, hsplit, hfront, hruling, hruled⟩ := hcases
    · exact ⟨by simp [hnone], by simpa [hnone] using hall⟩
    · have hmem : msg ∈ incoming := by simp [hsplit]
      have hrules : ∃ msg ∈ incoming, msg.ruling m callId ≠ none :=
        ⟨msg, hmem, by simp [hruling]⟩
      refine ⟨fun delay answer h => ⟨front, msg, hsplit, hfront, ?_⟩, ?_⟩
      · obtain ⟨-, rfl⟩ : 0 = delay ∧ ruled = answer := by simpa [hruled] using h
        exact hruling
      · simpa [hruled] using hrules

/-- With the last id there is, the late reply to another call is passed over, the status
decides although the body is no message, and a text after it is kept. -/
theorem one_message_decides_a_call_rejected :
    let other : Incoming := .binary (Frame.encode ⟨1, 3, [], 0, "", 1⟩)
    let reply : Incoming := .binary (Frame.encode ⟨3, 18446744073709551615, [255], -5, "no", 1⟩)
    let peer : Connection.Peer Unit := fun _ p => (.ok [other, reply, .text "late"], p)
    let c : Connection := ⟨18446744073709551614, .live, [.pong [1]]⟩
    let served := (Connection.service peer).serve .event ⟨2, none⟩ (c, ())
    served.answer = some (0, .error (.remote (-5) "no")) ∧
      served.state.1.lastCallId.toNat = 18446744073709551615 ∧
      ∃ front msg, [.pong [1], other, reply, .text "late"] = front ++ msg :: [.text "late"] ∧
        (∀ x ∈ front, x.ruling .event 18446744073709551615 = none) ∧
        msg.ruling .event 18446744073709551615 = some (.error (.remote (-5) "no")) := by
  intro other reply peer c served
  have hanswer : served.answer = some (0, .error (.remote (-5) "no")) := by
    with_unfolding_all rfl
  have hunread : served.state.1.unread = [.text "late"] := by decide +kernel
  obtain ⟨hid, -, hsent, -⟩ :=
    one_message_decides_a_call peer .event ⟨2, none⟩ c () rfl (by decide)
  obtain ⟨hdecided, -⟩ := hsent _ rfl
  obtain ⟨front, msg, hsplit, hdecisive⟩ := hdecided 0 _ hanswer
  have hread : c.unread ++ [other, reply, .text "late"] =
      front ++ msg :: served.state.1.unread := hsplit
  rw [hunread] at hread
  exact ⟨hanswer, hid, front, msg, hread, hdecisive⟩

end FazClient
