import FazClient.Proofs.Handler
import FazClient.Proofs.Tags

/-!
# FazClient.Proofs.Refinement

A client cannot tell a connection from the handler behind it, as long as the replies can be
read.  States are related for the calls that are still to come, for it is the replies to these
that have to be short enough.

* `Session.Matches` — two computations that give the same result and keep their
  states related (`Matches.bind`, …);
* `Service.Matches` — two services that answer every short request alike;
* `Task.matches_runAll` — matching services make every sequence of tasks match;
* `Handler.service_matches` — a connection to a handler, next to the handler;
* `framed_transport_refines_handler` — what this means for a whole session, and
  `framed_transport_loses_overlong_reply` — what becomes of a reply that is too long.
-/

namespace FazClient

open Wire

/-! ## Computations that match -/

/-- From states that are related for the calls to come, those of the second computation and those
after it, both computations give the same result and end in states that are related for the calls
after it.  Their acts may differ. -/
def Session.Matches (R : List Call → σ → τ → Prop) (s : Session σ α) (t : Session τ α) : Prop :=
  ∀ later a b, R (Act.calls (t.run b).acts ++ later) a b →
    (s.run a).result = (t.run b).result ∧ R later (s.run a).state (t.run b).state

namespace Session

variable {R : List Call → σ → τ → Prop}

theorem matches_pure (x : α) : Matches R (pure x) (pure x) := fun _ _ _ h => ⟨rfl, h⟩

theorem matches_log (l : Level) (m : String) (fs : List (String × String)) :
    Matches R (log l m fs) (log l m fs) :=
  fun _ _ _ h => ⟨rfl, h⟩

theorem Matches.bind {s : Session σ α} {t : Session τ α} {f : α → Session σ β}
    {g : α → Session τ β} (hst : Matches R s t) (hfg : ∀ x, Matches R (f x) (g x)) :
    Matches R (s >>= f) (t >>= g) := by
  intro later a b hab
  rw [run_bind, Act.calls_append, List.append_assoc] at hab
  obtain ⟨hresult, hstate⟩ := hst _ a b hab
  simp only [run_bind, hresult]
  exact hfg _ later _ _ hstate

end Session

/-! ## Services that match -/

/-- From states that are related for a short request and later calls, both services give the same
answer to the request, after the same time, and end in states that are related for the later
calls. -/
def Service.Matches (R : List Call → σ → τ → Prop) (s : Service σ) (t : Service τ) : Prop :=
  ∀ (m : Method) (request : m.Request), m.Short request → ∀ later a b,
    R (⟨m, request⟩ :: later) a b →
      (s.serve m request a).answer = (t.serve m request b).answer ∧
        R later (s.serve m request a).state (t.serve m request b).state

variable {R : List Call → σ → τ → Prop}

theorem Service.Matches.callWithin {s : Service σ} {t : Service τ} (hst : s.Matches R t)
    (deadline : Nat) (what : String) {m : Method} {request : m.Request} (hm : m.Short request) :
    Session.Matches R (s.callWithin deadline what m request)
      (t.callWithin deadline what m request) := by
  intro later a b hab
  rw [t.calls_callWithin, List.singleton_append] at hab
  obtain ⟨hanswer, hstate⟩ := hst m request hm later a b hab
  refine ⟨?_, hstate⟩
  show (s.serve m request a).within deadline what = (t.serve m request b).within deadline what
  rw [Served.within, Served.within, hanswer]

/-! ## Clients of services that match -/

/-- The requests about the handlers of the registry are short. -/
theorem HookAction.short_request (a : HookAction) {e : EventType} {handler : String}
    (h : (e, handler) ∈ registry) : a.method.Short (a.request e handler) := by
  cases a with
  | hook =>
    have hlen : handler.utf8ByteSize < 100 := by
      obtain ⟨e', -, heq⟩ := List.mem_map.1 h
      cases heq
      cases e <;> decide
    have hsize : size .hookRequest ⟨e.value, handler⟩ ≤ 22 + handler.utf8ByteSize :=
      HookRequest.size_le e.value (by omega)
    show size .hookRequest ⟨e.value, handler⟩ < 2 ^ 32
    omega
  | unhook =>
    have hsize := UnhookRequest.size_le e.value
    show size .unhookRequest ⟨e.value⟩ < 2 ^ 32
    omega

namespace Client

open Session

variable {s : Service σ} {t : Service τ} (hst : s.Matches R t) (deadline : Nat)

include hst

theorem matches_driveOne (a : HookAction) {e : EventType} {handler : String}
    (h : (e, handler) ∈ registry) :
    Matches R (driveOne ⟨s, deadline⟩ a e handler) (driveOne ⟨t, deadline⟩ a e handler) := by
  refine (hst.callWithin deadline a.verb (a.short_request h)).bind fun answer => ?_
  cases answer with
  | error f => exact (matches_log _ _ _).bind fun _ => matches_pure _
  | ok reply => exact (matches_log _ _ _).bind fun _ => matches_pure _

theorem matches_driveAll (a : HookAction) (entries : List (EventType × String))
    (h : ∀ x ∈ entries, x ∈ registry) :
    Matches R (driveAll ⟨s, deadline⟩ a entries)
      (driveAll ⟨t, deadline⟩ a entries) := by
  induction entries with
  | nil => exact matches_pure []
  | cons entry entries ih =>
    obtain ⟨e, handler⟩ := entry
    refine (matches_driveOne hst deadline a (h _ List.mem_cons_self)).bind fun outcome => ?_
    refine (ih fun x hx => h x (List.mem_cons_of_mem _ hx)).bind fun outcomes => ?_
    exact matches_pure _

theorem matches_driveReport (a : HookAction) :
    Matches R (driveReport ⟨s, deadline⟩ a) (driveReport ⟨t, deadline⟩ a) :=
  matches_driveAll hst deadline a registry fun _ hx => hx

/-- Events match: what cannot be packed is sent by neither, and what can is short. -/
theorem matches_invoke (e : EventType) (request : e.Request) :
    Matches R (invoke ⟨s, deadline⟩ e request) (invoke ⟨t, deadline⟩ e request) := by
  by_cases hlimit : (encode (.payload e.request) request).length ≤ Payload.limit
  · have hshort := EventRequest.short e hlimit
    simp only [invoke, Payload.pack_eq_ok hlimit]
    refine (matches_log _ _ _).bind fun _ => ?_
    refine (hst.callWithin deadline e.name hshort).bind fun answer => ?_
    rcases answer with f | ⟨_ | a⟩
    · exact matches_pure _
    · exact (matches_log _ _ _).bind fun _ => matches_pure _
    · cases hreply : Payload.unpack e.reply a <;> simp only [hreply] <;> exact matches_pure _
  · obtain ⟨text, herror⟩ := Payload.pack_eq_error (Nat.lt_of_not_le hlimit)
    simp only [invoke, herror]
    exact matches_pure _

theorem matches_acknowledge (e : EventType) (request : e.Request) :
    Matches R (acknowledge ⟨s, deadline⟩ e request) (acknowledge ⟨t, deadline⟩ e request) := by
  refine (matches_invoke hst deadline e request).bind fun answer => ?_
  cases answer with
  | error f => exact (matches_log _ _ _).bind fun _ => matches_pure _
  | ok reply => exact matches_pure _

theorem matches_fetch (e : EventType) (request : e.Request) :
    Matches R (fetch ⟨s, deadline⟩ e request) (fetch ⟨t, deadline⟩ e request) := by
  refine (matches_invoke hst deadline e request).bind fun answer => ?_
  rcases answer with f | _ | reply
  · exact (matches_log _ _ _).bind fun _ => matches_pure _
  · exact (matches_log _ _ _).bind fun _ => matches_pure _
  · exact matches_pure _

theorem matches_run (o : Operation) :
    Matches R (o.run ⟨s, deadline⟩) (o.run ⟨t, deadline⟩) := by
  cases o with
  | registerUser username =>
    refine (matches_acknowledge hst deadline .registerUser _).bind fun ok => ?_
    cases ok
    · exact matches_pure _
    · exact (matches_log _ _ _).bind fun _ => matches_pure _
  | follow username toFollow =>
    refine (matches_acknowledge hst deadline .follow _).bind fun ok => ?_
    cases ok
    · exact matches_pure _
    · exact (matches_log _ _ _).bind fun _ => matches_pure _
  | profile username => exact matches_fetch hst deadline .profile _
  | post username text parent =>
    refine (matches_fetch hst deadline .post _).bind fun reply => ?_
    rcases reply with _ | ⟨_ | caw⟩
    · exact matches_pure _
    · exact (matches_log _ _ _).bind fun _ => matches_pure _
    · exact matches_pure _
  | read cawId =>
    exact (matches_fetch hst deadline .read _).bind fun _ => matches_pure _

end Client

/-! ## Sequences of tasks -/

/-- What a client can be asked to do. -/
inductive Task where
  | report (a : HookAction)
  | invoke (e : EventType) (request : e.Request)
  | perform (o : Operation)

namespace Task

/-- What a task gives back. -/
@[reducible] def Result : Task → Type
  | report _ => List HookOutcome
  | invoke e _ => Except Failure (Option e.Reply)
  | perform o => o.Result

/-- Does a task with a client. -/
def run (c : Client σ) : (t : Task) → Session σ t.Result
  | report a => c.driveReport a
  | invoke e request => c.invoke e request
  | perform o => o.run c

/-- Does tasks one after the other and collects what they give back. -/
def runAll (c : Client σ) : List Task → Session σ (List ((t : Task) × t.Result))
  | [] => return []
  | t :: ts => do
    let result ← t.run c
    let results ← runAll c ts
    return ⟨t, result⟩ :: results

theorem matches_run {s : Service σ} {t : Service τ} (hst : s.Matches R t) (deadline : Nat)
    (task : Task) :
    Session.Matches R (task.run ⟨s, deadline⟩) (task.run ⟨t, deadline⟩) := by
  cases task with
  | report a => exact Client.matches_driveReport hst deadline a
  | invoke e request => exact Client.matches_invoke hst deadline e request
  | perform o => exact Client.matches_run hst deadline o

theorem matches_runAll {s : Service σ} {t : Service τ} (hst : s.Matches R t) (deadline : Nat)
    (tasks : List Task) :
    Session.Matches R (runAll ⟨s, deadline⟩ tasks)
      (runAll ⟨t, deadline⟩ tasks) := by
  induction tasks with
  | nil => exact Session.matches_pure []
  | cons task tasks ih =>
    refine (matches_run hst deadline task).bind fun result => ?_
    exact ih.bind fun results => Session.matches_pure _

end Task

/-! ## A connection and the handler behind it -/

namespace Handler

/-- A connection to a handler, next to the handler in the same state, where the frames with which
it answers the calls to come can be read. -/
def Reads (h : Handler π) (noise : Chatter) (calls : List Call)
    (a : Connection × Way × π × Nat) (p : π) : Prop :=
  Linked noise calls.length a p ∧
    ∀ f ∈ h.replies a.2.2.2 p calls, f.encode.length ≤ 16777216

theorem service_matches (h : Handler π) (noise : Chatter) :
    (Connection.service (h.peer noise)).Matches (h.Reads noise) h.service := by
  rintro m request hshort later a p ⟨hlink, hfits⟩
  obtain ⟨hfirst, hlater⟩ := List.forall_mem_cons.1 hfits
  obtain ⟨hanswer, hlink, hnumber⟩ := serve_peer hlink hshort hfirst
  refine ⟨hanswer, hlink, ?_⟩
  rw [hnumber]
  exact hlater

end Handler

/-- **Refinement**: every sequence of tasks gives the same results over a new connection to a
handler as with the handler itself, and leaves it in the same state, whatever stale messages come
around the replies, if no frame with which the handler answers takes more than 16 MiB. -/
theorem framed_transport_refines_handler (h : Handler π) (noise : Chatter) (deadline : Nat)
    (tasks : List Task) (p : π) :
    let framed := (Task.runAll ⟨Connection.service (h.peer noise), deadline⟩ tasks).run
      ({ unread := noise.after 0 }, .clear, p, 0)
    let direct := (Task.runAll ⟨h.service, deadline⟩ tasks).run p
    let calls := Act.calls direct.acts
    (∀ f ∈ h.replies 0 p calls, f.encode.length ≤ 16777216) → noise.Stale calls.length →
      framed.result = direct.result ∧ framed.state.2.2.1 = direct.state := by
  intro framed direct calls hfits hstale
  have hlink : Handler.Linked noise calls.length ({ unread := noise.after 0 }, .clear, p, 0) p :=
    ⟨rfl, rfl, (hstale 0 (Nat.zero_le _)).2, rfl, rfl, (Nat.zero_add _).symm ▸ hstale⟩
  have hmatches := Task.matches_runAll (h.service_matches noise) deadline tasks
  have hreads : h.Reads noise (calls ++ []) ({ unread := noise.after 0 }, .clear, p, 0) p := by
    rw [List.append_nil]
    exact ⟨hlink, hfits⟩
  obtain ⟨hresult, hafter, -⟩ := hmatches [] _ _ hreads
  exact ⟨hresult, hafter.state⟩

/-- A service that counts the events that it was sent.  It rejects all hooks, with the
least status, and answers an event with a payload that is there but empty, unless it is
the first. -/
def Handler.counting : Handler Nat where
  handle
    | .hook, _, n => (.error ⟨-2147483648, "no", by decide⟩, n)
    | .unhook, _, n => (.ok {}, n)
    | .event, _, n => (.ok ⟨if n = 0 then none else some {}⟩, n + 1)

/-- The frames of this service are short. -/
theorem Handler.length_reply_counting (n : Nat) (m : Method) (request : m.Request) (p : Nat) :
    (counting.reply n m request p).encode.length ≤ 70 := by
  have hsize : ∀ f : Frame, f.body.length ≤ 2 → f.message.utf8ByteSize ≤ 2 →
      f.encode.length ≤ 70 := by
    intro f hbody hmessage
    have hle := Frame.size_le (f := f) (by omega) (by omega)
    rw [Frame.encode, length_encode]
    omega
  cases m with
  | hook => exact hsize _ (Nat.zero_le 2) (Nat.le_refl 2)
  | unhook => exact hsize _ (Nat.zero_le 2) (Nat.zero_le 2)
  | event =>
    cases p with
    | zero => exact hsize _ (Nat.zero_le 2) (Nat.zero_le 2)
    | succ p =>
      have hbody : (encode .eventReply ⟨some {}⟩).length ≤ 2 := by
        rw [length_encode]
        decide
      exact hsize _ hbody (Nat.zero_le 2)

theorem Handler.length_replies_counting (calls : List Call) :
    ∀ n p, ∀ f ∈ counting.replies n p calls, f.encode.length ≤ 70 := by
  induction calls with
  | nil => exact fun n p f hf => nomatch hf
  | cons call calls ih =>
    rintro n p f (_ | ⟨_, hf⟩)
    · exact length_reply_counting _ _ _ _
    · exact ih _ _ f hf

/-- A ping before every reply, and then a copy of the reply to the first call. -/
def Chatter.copying : Chatter where
  before _ := [.ping [1]]
  after n :=
    if n = 0 then [.pong []] else [.binary (Frame.encode ⟨1, 1, [], -2147483648, "no", 1⟩)]

theorem Chatter.stale_copying {calls : Nat} (h : calls + 1 < 2 ^ 64) : copying.Stale calls := by
  have hlength : (Frame.encode ⟨1, 1, [], -2147483648, "no", 1⟩).length ≤ 70 := by
    rw [Frame.encode, length_encode]
    decide +kernel
  refine stale_of_earlier h ?_ ?_
  · rintro n - msg hmsg
    cases List.mem_singleton.1 hmsg
    exact ⟨(by decide : 1 ≤ 125), .inl rfl⟩
  · rintro n - msg hmsg
    by_cases hn : n = 0
    · simp only [copying, if_pos hn, List.mem_singleton] at hmsg
      subst hmsg
      exact ⟨Nat.zero_le 125, .inl rfl⟩
    · simp only [copying, if_neg hn, List.mem_singleton] at hmsg
      subst hmsg
      refine ⟨Nat.le_trans hlength (by decide), .inr
        ⟨⟨1, 1, [], -2147483648, "no", 1⟩, ?_, Nat.one_le_iff_ne_zero.2 hn⟩⟩
      exact Incoming.content_binary (Frame.decode_encode_of_current rfl (by omega))

/-- Five rejections, an event without a payload and one with an empty payload, all next to
copies of the first rejection. -/
theorem framed_transport_refines_handler_copies :
    let tasks : List Task := [.report .hook, .invoke .read ⟨[]⟩, .invoke .read ⟨[1]⟩]
    let framed := (Task.runAll ⟨Connection.service (Handler.counting.peer .copying), 100⟩ tasks).run
      ({ unread := [.pong []] }, .clear, 0, 0)
    framed.state.2.2.1 = 2 ∧ framed.result.drop 1 =
      [⟨.invoke .read ⟨[]⟩, .ok none⟩,
        ⟨.invoke .read ⟨[1]⟩, .error (.decode (.typeMismatch "caw.ReadReply" ""))⟩] := by
  intro tasks framed
  obtain ⟨hresult, hstate⟩ := framed_transport_refines_handler Handler.counting .copying 100 tasks 0
    (fun f hf => Nat.le_trans (Handler.length_replies_counting _ _ _ f hf) (by decide))
    (Chatter.stale_copying (by decide))
  exact ⟨hstate, hresult ▸ rfl⟩

/-! ## A reply that is not read -/

/-- A service that answers every event with an empty message under this tag. -/
def Handler.tagging (tag : String) : Handler Unit where
  handle
    | .hook, _, _ => (.ok {}, ())
    | .unhook, _, _ => (.ok {}, ())
    | .event, _, _ => (.ok ⟨some ⟨tag, []⟩⟩, ())

/-- No other messages. -/
def Chatter.silent : Chatter := ⟨fun _ => [], fun _ => []⟩

theorem Chatter.stale_silent (calls : Nat) : silent.Stale calls :=
  fun _ _ => ⟨List.forall_mem_nil _, List.forall_mem_nil _⟩

/-- A text is no longer than the frame that answers an event with it as the tag. -/
theorem Handler.length_le_reply_tagging (tag : String) (n : Nat) (request : EventRequest) :
    tag.utf8ByteSize ≤ ((tagging tag).reply n .event request ()).encode.length := by
  refine Nat.le_trans ?_ (Frame.length_body_le _)
  show tag.utf8ByteSize ≤ (encode .eventReply ⟨some ⟨tag, []⟩⟩).length
  have hput : tag.utf8ByteSize ≤ sizeAll (putText 1 tag) := by
    by_cases htag : tag = ""
    · simp [htag]
    · rw [putText, if_neg htag]
      simp only [sizeAll, Record.size, delimitedSize]
      omega
  rw [length_encode]
  simp only [size, Schema.toRecords, Any.toRecords, putMessage?, Option.map_some,
    Option.toList_some, List.map_cons, List.map_nil, sizeAll, Record.size, delimitedSize,
    sizeAll_append]
  omega

/-- A text written this many times in a row. -/
theorem utf8ByteSize_join_replicate (n : Nat) (s : String) :
    (String.join (List.replicate n s)).utf8ByteSize = n * s.utf8ByteSize := by
  induction n with
  | zero =>
    rw [Nat.zero_mul]
    rfl
  | succ n ih =>
    rw [List.replicate_succ, String.join_cons, String.utf8ByteSize_append, ih, Nat.succ_mul,
      Nat.add_comm]

/-- An account that the service has created, behind a tag that no connection brings to its
client. -/
theorem Handler.register_tagging {tag : String}
    (hname : Payload.typeName? tag = some "caw.RegisteruserReply")
    (hlong : 16777216 < tag.utf8ByteSize) (deadline : Nat) {username : String}
    (hfits : (Operation.registerUser username).Fits) :
    (((Operation.registerUser username).run ⟨(tagging tag).service, deadline⟩).run ()).result =
      true ∧
    (((Operation.registerUser username).run
      ⟨Connection.service ((tagging tag).peer .silent), deadline⟩).run
        ({}, .clear, (), 0)).result = false := by
  have hshort : Method.event.Short (Operation.registerUser username).envelope :=
    EventRequest.short .registerUser ((Operation.fits_iff _).1 hfits)
  constructor
  · have hin : ((tagging tag).service.serve .event (Operation.registerUser username).envelope
        ()).InTime deadline (.ok ⟨some ⟨tag, []⟩⟩) := ⟨0, Nat.zero_le _, rfl⟩
    have hsays : EventReply.Says ⟨some ⟨tag, []⟩⟩ .registerUserReply (some RegisterUserReply.mk) :=
      ⟨⟨tag, []⟩, rfl, hname, rfl⟩
    have hread := (EventType.understand_eq_ok_iff (e := .registerUser)).2 ⟨_, rfl, hsays⟩
    exact Operation.result_run_of_understood hfits hin hread
  · have hlink : Linked .silent (0 + 1) ({}, .clear, (), 0) () :=
      ⟨rfl, rfl, List.forall_mem_nil _, rfl, rfl, Chatter.stale_silent _⟩
    have hlost := Nat.lt_of_lt_of_le hlong
      (length_le_reply_tagging tag 1 (Operation.registerUser username).envelope)
    obtain ⟨⟨text, hanswer⟩, -⟩ := serve_peer_of_overlong hlink hshort hlost
    exact Operation.result_run_of_not_understood hfits
      (Exists.intro 0 (And.intro (Nat.zero_le deadline) hanswer)) rfl

/-- A reply that is too long to be read: the account is created, and the client of the service
says so where the client at the end of a connection says that it was not. -/
theorem framed_transport_loses_overlong_reply :
    let handler := Handler.tagging (String.join (List.replicate 762601 "/caw.RegisteruserReply"))
    let tasks : List Task := [.perform (.registerUser "a")]
    ((Task.runAll ⟨handler.service, 10000⟩ tasks).run ()).result =
        [⟨.perform (.registerUser "a"), true⟩] ∧
      ((Task.runAll ⟨Connection.service (handler.peer .silent), 10000⟩ tasks).run
        ({}, .clear, (), 0)).result = [⟨.perform (.registerUser "a"), false⟩] := by
  intro handler tasks
  have hname : Payload.typeName?
      (String.join (List.replicate 762601 "/caw.RegisteruserReply")) =
        some "caw.RegisteruserReply" := by
    have hlast : String.join (List.replicate 762601 "/caw.RegisteruserReply") =
        String.join (List.replicate 762600 "/caw.RegisteruserReply") ++ "/" ++
          "caw.RegisteruserReply" := by
      rw [List.replicate_succ', String.join_append, String.append_assoc]
      rfl
    rw [hlast]
    exact Payload.typeName?_append _ (by decide)
  have hlong : 16777216 <
      (String.join (List.replicate 762601 "/caw.RegisteruserReply")).utf8ByteSize := by
    rw [utf8ByteSize_join_replicate]
    decide
  have hfits : (Operation.registerUser "a").Fits := by
    rw [Operation.Fits, length_encode]
    decide +kernel
  obtain ⟨hdirect, hframed⟩ := Handler.register_tagging hname hlong 10000 hfits
  let results (ok : Bool) : List ((t : Task) × t.Result) := [⟨.perform (.registerUser "a"), ok⟩]
  exact ⟨congrArg results hdirect, congrArg results hframed⟩

end FazClient
