import Mathlib.Logic.Relation
import FazClient.Proofs.Calls
import FazClient.Proofs.Receiving

/-!
# FazClient.Proofs.Conversation

A connection over its whole life.  Calls are begun one after the other, and sending may fail;
messages arrive at any moment, and a call that waits may be given up at any moment.

* `Conversation.Step` — one step, where the peer answers only calls that reached it;
* `Conversation.Reachable` — what steps lead to from a new connection;
* `Conversation.serve_reaches`, `Conversation.serveAll_reaches` — a call of a connection
  as a service is a run of steps, and so are many calls.
-/

namespace FazClient

/-! ## Calls of a conversation -/

/-- A call that was begun: the frame that went out for it, unless none did, and how many
messages had been read before. -/
structure Begun where
  call : Call
  sent : Option Frame
  position : Nat

/-- How a call ended. -/
inductive Ending (m : Method) where
  /-- The caller waited no longer, when this many messages had been read. -/
  | abandoned (position : Nat)
  /-- Nothing could be sent, for this reason. -/
  | refused (text : String)
  /-- Sending failed for this reason, although the link was open. -/
  | unsent (text : String)
  /-- The message at this position among those that arrived gave this answer. -/
  | decided (position : Nat) (answer : Except Failure m.Reply)

namespace Ending

variable {m : Method}

/-- The answer that the caller gets, if any. -/
def answer? : Ending m → Option (Except Failure m.Reply)
  | abandoned _ => none
  | refused text => some (.error (.connection text))
  | unsent text => some (.error (.connection text))
  | decided _ answer => some answer

/-- The position of the message that decided the call, if one did. -/
def position? : Ending m → Option Nat
  | decided position _ => some position
  | _ => none

end Ending

/-- A call that has ended. -/
structure Ended extends Begun where
  ending : Ending call.method

/-! ## Conversations -/

/-- A connection, the messages that were read from it, the calls that have ended, and
the call that waits, if one does. -/
structure Conversation where
  connection : Connection := {}
  read : List Incoming := []
  ended : List Ended := []
  waiting : Option Begun := none

namespace Conversation

/-- Every message that the peer has sent, in order. -/
def arrived (s : Conversation) : List Incoming := s.read ++ s.connection.unread

/-- Every call that was begun, in order. -/
def calls (s : Conversation) : List Begun := s.ended.map Ended.toBegun ++ s.waiting.toList

/-- Begins a call.  It ends at once if nothing can be sent, and has used its id all the
same. -/
def start (s : Conversation) (call : Call) : Conversation :=
  let callId := s.connection.lastCallId + 1
  let connection := { s.connection with lastCallId := callId }
  match s.connection.link.refusal? with
  | some text =>
    { s with connection, ended := s.ended ++ [⟨⟨call, none, s.read.length⟩, .refused text⟩] }
  | none =>
    let frame := Connection.frame call.method callId call.request
    { s with connection, waiting := some ⟨call, some frame, s.read.length⟩ }

/-- Begins a call on an open link whose message is not sent for a reason.  It may have reached
the peer all the same. -/
def startUnsent (s : Conversation) (call : Call) (text : String) (reached : Bool) : Conversation :=
  let callId := s.connection.lastCallId + 1
  let frame := Connection.frame call.method callId call.request
  { s with
    connection := { s.connection with lastCallId := callId }
    ended := s.ended ++ [⟨⟨call, if reached then some frame else none, s.read.length⟩,
      .unsent text⟩] }

/-- A message arrives. -/
def arrive (s : Conversation) (msg : Incoming) : Conversation :=
  { s with connection := { s.connection with unread := s.connection.unread ++ [msg] } }

/-- The call that waits reads the next message, if there is one. -/
def readNext (s : Conversation) : Conversation :=
  match s.waiting, s.connection.unread with
  | some b, msg :: rest =>
    let connection := { s.connection with link := s.connection.link.after msg, unread := rest }
    let read := s.read ++ [msg]
    match Connection.judge b.call.method s.connection.lastCallId msg with
    | .skip _ => { s with connection, read }
    | .settle answer _ =>
      { connection, read, ended := s.ended ++ [⟨b, .decided s.read.length answer⟩] }
  | _, _ => s

/-- The call that waits is given up. -/
def abandon (s : Conversation) : Conversation :=
  match s.waiting with
  | some b => { s with ended := s.ended ++ [⟨b, .abandoned s.read.length⟩], waiting := none }
  | none => s

/-- A call with this id has gone out. -/
def Sent (s : Conversation) (callId : UInt64) : Prop :=
  ∃ b ∈ s.calls, ∃ f, b.sent = some f ∧ f.callId = callId

/-- A message that a peer can send that answers only calls that reached it: a frame has
the id of one of them. -/
def Expects (s : Conversation) (msg : Incoming) : Prop :=
  ∀ f, msg.content = .frame f → s.Sent f.callId

/-- One step: a call is begun when none waits, and its message goes out or is not sent; a message
arrives; the call that waits reads a message, or it is given up. -/
inductive Step : Conversation → Conversation → Prop where
  | start {s : Conversation} (call : Call) (hidle : s.waiting = none) : Step s (s.start call)
  | startUnsent {s : Conversation} (call : Call) (text : String) (reached : Bool)
      (hidle : s.waiting = none) (hopen : s.connection.link.refusal? = none) :
      Step s (s.startUnsent call text reached)
  | arrive {s : Conversation} (msg : Incoming) (hexpected : s.Expects msg) : Step s (s.arrive msg)
  | readNext {s : Conversation} : Step s s.readNext
  | abandon {s : Conversation} : Step s s.abandon

/-- Any number of steps. -/
abbrev Reaches : Conversation → Conversation → Prop := Relation.ReflTransGen Step

/-- What steps lead to from a new connection. -/
def Reachable (s : Conversation) : Prop := Reaches {} s

/-! ## What the steps do -/

section

variable {s : Conversation} {b : Begun} {msg : Incoming} {rest : List Incoming}

@[simp] theorem arrived_arrive (s : Conversation) (msg : Incoming) :
    (s.arrive msg).arrived = s.arrived ++ [msg] :=
  (List.append_assoc _ _ _).symm

theorem start_of_refusal {text : String} (h : s.connection.link.refusal? = some text)
    (call : Call) :
    s.start call =
      { s with
        connection := { s.connection with lastCallId := s.connection.lastCallId + 1 }
        ended := s.ended ++ [⟨⟨call, none, s.read.length⟩, .refused text⟩] } := by
  rw [start, h]

theorem start_of_live (h : s.connection.link.refusal? = none) (call : Call) :
    s.start call =
      { s with
        connection := { s.connection with lastCallId := s.connection.lastCallId + 1 }
        waiting := some ⟨call, some (Connection.frame call.method (s.connection.lastCallId + 1)
          call.request), s.read.length⟩ } := by
  rw [start, h]

theorem readNext_of_skip (hw : s.waiting = some b) (hu : s.connection.unread = msg :: rest)
    {log : List LogEntry}
    (h : Connection.judge b.call.method s.connection.lastCallId msg = .skip log) :
    s.readNext =
      { s with
        connection :=
          { s.connection with link := s.connection.link.after msg, unread := rest }
        read := s.read ++ [msg] } := by
  simp only [readNext, hw, hu, h]

theorem readNext_of_settle (hw : s.waiting = some b) (hu : s.connection.unread = msg :: rest)
    {answer : Except Failure b.call.method.Reply} {log : List LogEntry}
    (h : Connection.judge b.call.method s.connection.lastCallId msg = .settle answer log) :
    s.readNext =
      { connection :=
          { s.connection with link := s.connection.link.after msg, unread := rest }
        read := s.read ++ [msg]
        ended := s.ended ++ [⟨b, .decided s.read.length answer⟩] } := by
  simp only [readNext, hw, hu, h]

theorem abandon_of_waiting (hw : s.waiting = some b) :
    s.abandon =
      { s with ended := s.ended ++ [⟨b, .abandoned s.read.length⟩], waiting := none } := by
  rw [abandon, hw]

theorem calls_of_idle (hidle : s.waiting = none) : s.calls = s.ended.map Ended.toBegun := by
  rw [calls, hidle, Option.toList_none, List.append_nil]

/-- A call that ends stays among the calls. -/
theorem calls_of_waiting (hw : s.waiting = some b) (ending : Ending b.call.method) :
    s.calls = (s.ended ++ [Ended.mk b ending]).map Ended.toBegun := by
  rw [calls, hw, Option.toList_some, List.map_append, List.map_singleton]

theorem calls_start_of_refusal {text : String}
    (h : s.connection.link.refusal? = some text) (hidle : s.waiting = none) (call : Call) :
    (s.start call).calls = s.calls ++ [⟨call, none, s.read.length⟩] := by
  have hidle' : (s.start call).waiting = none := by
    rw [start_of_refusal h]
    exact hidle
  rw [calls_of_idle hidle', start_of_refusal h, List.map_append, List.map_singleton,
    calls_of_idle hidle]

theorem calls_start_of_live (h : s.connection.link.refusal? = none) (hidle : s.waiting = none)
    (call : Call) :
    (s.start call).calls = s.calls ++ [⟨call, some (Connection.frame call.method
      (s.connection.lastCallId + 1) call.request), s.read.length⟩] := by
  rw [start_of_live h, calls_of_idle hidle, calls, Option.toList_some]

theorem calls_startUnsent (hidle : s.waiting = none) (call : Call) (text : String)
    (reached : Bool) :
    (s.startUnsent call text reached).calls = s.calls ++ [⟨call,
      if reached then some (Connection.frame call.method (s.connection.lastCallId + 1)
        call.request) else none, s.read.length⟩] := by
  rw [calls_of_idle hidle, calls_of_idle (s := s.startUnsent call text reached) hidle, startUnsent,
    List.map_append, List.map_singleton]

theorem calls_readNext (s : Conversation) : s.readNext.calls = s.calls := by
  cases hw : s.waiting with
  | none => rw [readNext, hw]
  | some b =>
    cases hu : s.connection.unread with
    | nil => rw [readNext, hw, hu]
    | cons msg rest =>
      cases hjudge : Connection.judge b.call.method s.connection.lastCallId msg with
      | skip log => rw [readNext_of_skip hw hu hjudge, calls, calls]
      | settle answer log =>
        rw [readNext_of_settle hw hu hjudge, calls_of_waiting hw, calls_of_idle rfl]

theorem calls_abandon (s : Conversation) : s.abandon.calls = s.calls := by
  cases hw : s.waiting with
  | none => rw [abandon, hw]
  | some b => rw [abandon_of_waiting hw, calls_of_waiting hw, calls_of_idle rfl]

/-- No call is forgotten. -/
theorem Step.calls_prefix {s t : Conversation} (h : Step s t) : s.calls <+: t.calls := by
  cases h with
  | start call hidle =>
    cases hlink : s.connection.link.refusal? with
    | some text =>
      rw [calls_start_of_refusal hlink hidle]
      exact List.prefix_append _ _
    | none =>
      rw [calls_start_of_live hlink hidle]
      exact List.prefix_append _ _
  | startUnsent call text reached hidle _ =>
    rw [calls_startUnsent hidle]
    exact List.prefix_append _ _
  | arrive msg _ => exact List.prefix_rfl
  | readNext => simp only [calls_readNext, List.prefix_rfl]
  | abandon => simp only [calls_abandon, List.prefix_rfl]

/-- A call that has gone out stays so. -/
theorem Reaches.sent {s t : Conversation} (h : Reaches s t) {callId : UInt64}
    (hsent : s.Sent callId) : t.Sent callId := by
  induction h with
  | refl => exact hsent
  | tail _ hstep ih =>
    obtain ⟨b, hb, hout⟩ := ih
    exact ⟨b, hstep.calls_prefix.subset hb, hout⟩

end

/-! ## Calls of a service -/

/-- Expected messages arrive. -/
theorem reaches_arrive (messages : List Incoming) (s : Conversation)
    (h : ∀ msg ∈ messages, s.Expects msg) :
    ∃ t, Reaches s t ∧
      t.connection = { s.connection with unread := s.connection.unread ++ messages } ∧
      t.ended = s.ended ∧ t.waiting = s.waiting := by
  induction messages generalizing s with
  | nil => exact ⟨s, .refl, by rw [List.append_nil], rfl, rfl⟩
  | cons msg messages ih =>
    obtain ⟨t, hreach, hconnection, hended, hwaiting⟩ :=
      ih (s.arrive msg) fun msg' hmsg' => h msg' (List.mem_cons_of_mem _ hmsg')
    refine ⟨t, .head (.arrive msg (h msg List.mem_cons_self)) hreach, ?_, hended, hwaiting⟩
    rw [hconnection, arrive, List.append_assoc, List.singleton_append]

/-- A call that waits reads what there is, and ends if that decides it. -/
theorem reaches_receive {b : Begun} (unread : List Incoming) (s : Conversation)
    (hw : s.waiting = some b) (hu : s.connection.unread = unread) :
    ∃ s', Reaches s s' ∧
      let received :=
        Connection.receive b.call.method s.connection.lastCallId s.connection unread
      s'.connection = received.connection ∧
        ((received.answer? = none ∧ s'.waiting = some b ∧ s'.ended = s.ended) ∨
          ∃ position answer, received.answer? = some answer ∧ s'.waiting = none ∧
            s'.ended = s.ended ++ [⟨b, .decided position answer⟩]) := by
  induction unread generalizing s with
  | nil =>
    refine ⟨s, .refl, ?_, .inl ⟨rfl, hw, rfl⟩⟩
    rw [Connection.receive, ← hu]
  | cons msg rest ih =>
    cases hjudge : Connection.judge b.call.method s.connection.lastCallId msg with
    | skip log =>
      have hnext := readNext_of_skip hw hu hjudge
      obtain ⟨s', hreach, hconnection, hended⟩ :=
        ih s.readNext (by rw [hnext]; exact hw) (by rw [hnext])
      rw [hnext] at hreach hconnection hended
      refine ⟨s', .head (hnext ▸ .readNext) hreach, ?_⟩
      simp only [Connection.receive, hjudge]
      rw [← Connection.receive_unread _ rest]
      exact ⟨hconnection, hended⟩
    | settle answer log =>
      have hnext := readNext_of_settle hw hu hjudge
      refine ⟨s.readNext, .single .readNext, ?_⟩
      rw [Connection.receive_of_settle hjudge, hnext]
      exact ⟨rfl, .inr ⟨_, answer, rfl, rfl, rfl⟩⟩

/-- On an open link a call goes out with the next id. -/
theorem sent_start {s : Conversation} (hidle : s.waiting = none)
    (hlink : s.connection.link.refusal? = none) (call : Call) :
    (s.start call).Sent (s.connection.lastCallId + 1) := by
  rw [Sent, calls_start_of_live hlink hidle]
  exact ⟨_, List.mem_append_right _ List.mem_cons_self, _, rfl, rfl⟩

/-- A call that reached the peer has gone out, whatever is said of the sending. -/
theorem sent_startUnsent {s : Conversation} (hidle : s.waiting = none) (call : Call)
    (text : String) :
    (s.startUnsent call text true).Sent (s.connection.lastCallId + 1) := by
  rw [Sent, calls_startUnsent hidle]
  exact ⟨_, List.mem_append_right _ List.mem_cons_self, _, rfl, rfl⟩

/-- A call of a connection as a service is a run of steps, if its peer sends expected
messages: the call is begun, the messages arrive, they are read until one decides the
call, and if none does it is given up.  If the link is open, the peer may know the id then. -/
theorem serve_reaches (peer : Connection.Peer π) (s : Conversation) (hidle : s.waiting = none)
    (call : Call) (p : π)
    (hexpected : s.connection.link.refusal? = none → ∀ messages,
      (peer (Connection.frame call.method (s.connection.lastCallId + 1)
        call.request).encode p).1 = .ok messages →
        ∀ msg ∈ messages, (s.start call).Expects msg) :
    ∃ t, Reaches s t ∧ t.waiting = none ∧
      (s.connection.link.refusal? = none → t.Sent (s.connection.lastCallId + 1)) ∧
      let served := (Connection.service peer).serve call.method call.request (s.connection, p)
      t.connection = served.state.1 ∧
        ∃ sent position ending, t.ended = s.ended ++ [⟨⟨call, sent, position⟩, ending⟩] ∧
          ending.answer? = served.answer.map Prod.snd := by
  cases hlink : s.connection.link.refusal? with
  | some text =>
    refine ⟨s.start call, .single (.start call hidle), ?_⟩
    simp only [Connection.service, Connection.send, hlink, start_of_refusal hlink]
    exact ⟨hidle, nofun, trivial, none, _, _, rfl, rfl⟩
  | none =>
    match hpeer : peer (Connection.frame call.method (s.connection.lastCallId + 1)
        call.request).encode p with
    | (.error text, q) =>
      refine ⟨s.startUnsent call text true, .single (.startUnsent call text true hidle hlink),
        hidle, fun _ => sent_startUnsent hidle call text, ?_⟩
      simp only [Connection.service, Connection.send, hlink, hpeer]
      exact ⟨rfl, _, _, .unsent text, rfl, rfl⟩
    | (.ok messages, q) =>
      have hcall := start_of_live hlink call
      obtain ⟨r, harrive, hconnection, hended, hwaiting⟩ :=
        reaches_arrive messages _ (hexpected hlink messages (congrArg Prod.fst hpeer))
      rw [hcall] at hconnection hended hwaiting
      obtain ⟨t, hreceive, hconnection', hanswer⟩ := reaches_receive _ r hwaiting rfl
      have hsame : Connection.receive call.method r.connection.lastCallId r.connection
          r.connection.unread =
            Connection.receive call.method (s.connection.lastCallId + 1)
              { s.connection with lastCallId := s.connection.lastCallId + 1 }
              (s.connection.unread ++ messages) := by
        rw [hconnection]
        exact Connection.receive_unread _ _ _
      have hreach := harrive.trans hreceive
      have hfirst : Reaches s (s.start call) := .single (.start call hidle)
      simp only [hsame, hended] at hconnection' hanswer
      simp only [Connection.service, Connection.send, hlink, hpeer]
      obtain ⟨hnone, hwaiting', hended'⟩ | ⟨position, answer, hsome, hidle', hended'⟩ := hanswer
      · -- No message decided the call: it waits until it is given up.
        have habandon := abandon_of_waiting hwaiting'
        have hlast := hreach.tail .abandon
        refine ⟨t.abandon, hfirst.trans hlast, ?_⟩
        have hsent := Reaches.sent hlast (sent_start hidle hlink call)
        rw [habandon] at hsent ⊢
        refine ⟨rfl, fun _ => hsent, hconnection', _, _, .abandoned _, by rw [hended'], ?_⟩
        rw [hnone]
        rfl
      · refine ⟨t, hfirst.trans hreach, hidle', fun _ => ?_, hconnection', _, _,
          .decided position answer, hended', ?_⟩
        · exact Reaches.sent hreach (sent_start hidle hlink call)
        · rw [hsome]
          rfl

end Conversation

/-! ## Sessions of a service -/

/-- Calls made one after the other, with their answers and the last state. -/
def Service.serveAll (service : Service σ) :
    List Call → σ → List ((c : Call) × Option (Except Failure c.method.Reply)) × σ
  | [], state => ([], state)
  | c :: cs, state =>
    let served := service.serve c.method c.request state
    let later := serveAll service cs served.state
    (⟨c, served.answer.map Prod.snd⟩ :: later.1, later.2)

/-- A peer that sends frames with ids that it has received, and no others, where `ids`
are those that it knows of. -/
structure Connection.Peer.Honest (peer : Connection.Peer π) (ids : π → List UInt64) : Prop where
  received : ∀ bytes p, ∀ id ∈ ids (peer bytes p).2,
    id ∈ ids p ∨ ∃ f, Frame.decode bytes = .ok f ∧ f.callId = id
  sent : ∀ bytes p messages, (peer bytes p).1 = .ok messages →
    ∀ msg ∈ messages, ∀ f, msg.content = .frame f → f.callId ∈ ids (peer bytes p).2

/-- A call that has ended, with its answer. -/
def Ended.answered (e : Ended) : (c : Call) × Option (Except Failure c.method.Reply) :=
  ⟨e.call, e.ending.answer?⟩

namespace Conversation

/-- An honest peer that a call may have reached knows only of calls that have gone out. -/
theorem sent_of_honest {peer : Connection.Peer π} {ids : π → List UInt64} (hpeer : peer.Honest ids)
    {s t : Conversation} (hreach : Reaches s t) {call : Call}
    (hsent : t.Sent (s.connection.lastCallId + 1)) (hshort : call.method.Short call.request)
    {p : π} (hids : ∀ id ∈ ids p, s.Sent id) :
    ∀ id ∈ ids (peer (Connection.frame call.method (s.connection.lastCallId + 1)
      call.request).encode p).2, t.Sent id := by
  intro id hid
  obtain hold | ⟨f, hf, rfl⟩ := hpeer.received _ p id hid
  · exact Reaches.sent hreach (hids id hold)
  · rw [Connection.decode_frame _ hshort, Except.ok.injEq] at hf
    rw [← hf]
    exact hsent

/-- Calls of a connection as a service, with an honest peer, are a run of steps. -/
theorem serveAll_reaches {peer : Connection.Peer π} {ids : π → List UInt64}
    (hpeer : peer.Honest ids) (cs : List Call) (hshort : ∀ c ∈ cs, c.method.Short c.request)
    (s : Conversation) (hidle : s.waiting = none) (p : π) (hids : ∀ id ∈ ids p, s.Sent id) :
    ∃ t, Reaches s t ∧ t.waiting = none ∧
      let served := (Connection.service peer).serveAll cs (s.connection, p)
      t.connection = served.2.1 ∧
        t.ended.map Ended.answered = s.ended.map Ended.answered ++ served.1 := by
  induction cs generalizing s p with
  | nil => exact ⟨s, .refl, hidle, rfl, (List.append_nil _).symm⟩
  | cons c cs ih =>
    have hc : c.method.Short c.request := hshort c List.mem_cons_self
    obtain ⟨t, hreach, hidle', hsent, hconnection, sent, position, ending, hended, hanswer⟩ :=
      serve_reaches peer s hidle c p fun hlink messages hmessages msg hmsg f hf =>
        sent_of_honest hpeer (.single (.start c hidle)) (sent_start hidle hlink c) hc hids _
          (hpeer.sent _ p messages hmessages msg hmsg f hf)
    generalize hserved : (Connection.service peer).serve c.method c.request (s.connection, p) =
      served at hconnection hanswer
    have hids' : ∀ id ∈ ids served.state.2, t.Sent id := by
      intro id hid
      rw [← hserved] at hid
      cases hlink : s.connection.link.refusal? with
      | some text =>
        simp only [Connection.service, Connection.send, hlink] at hid
        exact Reaches.sent hreach (hids id hid)
      | none =>
        refine sent_of_honest hpeer hreach (hsent hlink) hc hids id ?_
        simp only [Connection.service, Connection.send, hlink] at hid
        split at hid
        · next hpeer => rwa [hpeer]
        · next hpeer => rwa [hpeer]
    obtain ⟨u, hreach', hidle'', hconnection', hended'⟩ :=
      ih (fun c' hc' => hshort c' (List.mem_cons_of_mem _ hc')) t hidle' served.state.2 hids'
    refine ⟨u, hreach.trans hreach', hidle'', ?_⟩
    rw [hconnection] at hconnection' hended'
    simp only [Service.serveAll, hserved]
    refine ⟨hconnection', ?_⟩
    have hlast : Ended.answered ⟨⟨c, sent, position⟩, ending⟩ =
        ⟨c, served.answer.map Prod.snd⟩ := by
      rw [← hanswer]
      rfl
    rw [hended', hended, List.map_append, List.map_singleton, hlast, List.append_assoc,
      List.singleton_append]

end Conversation

end FazClient
