import FazClient.Client

/-!
# FazClient.Proofs.Operations

The operations of a client as data, so that statements can range over sequences
of them.  Each sends one event: what is logged around it changes nothing outside.

* `Session.Extends` — a computation that is another one and some logging after it;
* `Operation.run_extends` — an operation is its event and some logging;
* `Client.run_invoke_of_error`, `Client.invoke_extends_of_ok` — what an event does,
  by whether its request can be packed.
-/

namespace FazClient

open Wire

/-! ## Operations -/

/-- An operation that sends an event, with its arguments. -/
inductive Operation where
  | registerUser (username : String)
  | follow (username toFollow : String)
  | profile (username : String)
  | post (username text parent : String)
  | read (cawId : String)

namespace Operation

/-- The type of the event that is sent. -/
def event : Operation → EventType
  | registerUser _ => .registerUser
  | follow _ _ => .follow
  | profile _ => .profile
  | post _ _ _ => .post
  | read _ => .read

/-- The request that is sent. -/
def request : (o : Operation) → o.event.Request
  | registerUser username => RegisterUserRequest.mk username
  | follow username toFollow => FollowRequest.mk username toFollow
  | profile username => ProfileRequest.mk username
  | post username text parent => CawRequest.of username text parent
  | read cawId => ReadRequest.mk (Utf8.encode cawId)

/-- What the operation gives back. -/
@[reducible] def Result : Operation → Type
  | registerUser _ => Bool
  | follow _ _ => Bool
  | profile _ => Option ProfileReply
  | post _ _ _ => Option Caw
  | read _ => Option (List Caw)

/-- Performs the operation with a client. -/
def run (c : Client σ) : (o : Operation) → Session σ o.Result
  | registerUser username => c.registerUser username
  | follow username toFollow => c.follow username toFollow
  | profile username => c.profile username
  | post username text parent => c.post username text parent
  | read cawId => c.read cawId

end Operation

/-! ## Computations that only log -/

/-- A computation that leaves what it talks to as it was, and makes no call and no output. -/
structure Session.OnlyLogs (session : Session σ α) : Prop where
  state : ∀ s, (session.run s).state = s
  calls : ∀ s, Act.calls (session.run s).acts = []
  output : ∀ s, Act.output (session.run s).acts = []

/-- A computation that is another one and some logging after it. -/
def Session.Extends (outer : Session σ β) (inner : Session σ α) : Prop :=
  ∃ f, (∀ a, OnlyLogs (f a)) ∧ outer = inner >>= f

namespace Session

theorem onlyLogs_pure (a : α) : OnlyLogs (pure a : Session σ α) :=
  ⟨fun _ => rfl, fun _ => rfl, fun _ => rfl⟩

theorem onlyLogs_log_pure (l : Level) (m : String) (fs : List (String × String)) (a : α) :
    OnlyLogs (log l m fs >>= fun _ => pure a : Session σ α) :=
  ⟨fun _ => rfl, fun _ => rfl, fun _ => rfl⟩

theorem OnlyLogs.bind {session : Session σ α} {f : α → Session σ β} (h : OnlyLogs session)
    (hf : ∀ a, OnlyLogs (f a)) : OnlyLogs (session >>= f) where
  state s := by rw [run_bind, (hf _).state, h.state]
  calls s := by rw [run_bind, Act.calls_append, (hf _).calls, h.calls, List.append_nil]
  output s := by rw [run_bind, Act.output_append, (hf _).output, h.output, List.append_nil]

theorem extends_bind {f : α → Session σ β} (hf : ∀ a, OnlyLogs (f a)) (session : Session σ α) :
    (session >>= f).Extends session :=
  ⟨f, hf, rfl⟩

namespace Extends

variable {outer : Session σ γ} {middle : Session σ β} {inner : Session σ α}

/-- Logging after some logging is logging. -/
theorem trans (h : outer.Extends middle) (h' : middle.Extends inner) : outer.Extends inner := by
  obtain ⟨g, hg, rfl⟩ := h
  obtain ⟨f, hf, rfl⟩ := h'
  exact ⟨fun a => f a >>= g, fun a => (hf a).bind hg, Session.bind_assoc inner f g⟩

variable (h : outer.Extends inner) (s : σ)

include h

theorem state : (outer.run s).state = (inner.run s).state := by
  obtain ⟨f, hf, rfl⟩ := h
  rw [run_bind, (hf _).state]

theorem calls : Act.calls (outer.run s).acts = Act.calls (inner.run s).acts := by
  obtain ⟨f, hf, rfl⟩ := h
  rw [run_bind, Act.calls_append, (hf _).calls, List.append_nil]

theorem output : Act.output (outer.run s).acts = Act.output (inner.run s).acts := by
  obtain ⟨f, hf, rfl⟩ := h
  rw [run_bind, Act.output_append, (hf _).output, List.append_nil]

end Extends

end Session

/-! ## Events -/

namespace Client

open Session

variable {c : Client σ}

/-- A request that cannot be packed is not sent. -/
theorem run_invoke_of_error {e : EventType} {request : e.Request} {f : CodecError}
    (h : Payload.pack e.request request = .error f) (s : σ) :
    (c.invoke e request).run s = ⟨.error (.encode f), s, []⟩ := by
  rw [invoke, h]
  rfl

/-- A request that can be packed is sent in one call. -/
theorem invoke_extends_of_ok {e : EventType} {request : e.Request} {payload : Any}
    (h : Payload.pack e.request request = .ok payload) :
    (c.invoke e request).Extends (do
      log .trace "Sending event" [("event", e.name)]
      c.service.callWithin c.deadline e.name .event ⟨e.value, some payload⟩) := by
  rw [invoke, h]
  simp only [← Session.bind_assoc]
  refine extends_bind (fun answer => ?_) _
  rcases answer with f | ⟨_ | a⟩
  · exact onlyLogs_pure _
  · exact onlyLogs_log_pure _ _ _ _
  · cases hreply : Payload.unpack e.reply a <;> simp only [hreply] <;> exact onlyLogs_pure _

theorem state_invoke_of_ok {e : EventType} {request : e.Request} {payload : Any}
    (h : Payload.pack e.request request = .ok payload) (s : σ) :
    ((c.invoke e request).run s).state =
      (c.service.serve .event ⟨e.value, some payload⟩ s).state :=
  (invoke_extends_of_ok h).state s

theorem calls_invoke_of_ok {e : EventType} {request : e.Request} {payload : Any}
    (h : Payload.pack e.request request = .ok payload) (s : σ) :
    Act.calls ((c.invoke e request).run s).acts = [⟨.event, ⟨e.value, some payload⟩⟩] :=
  ((invoke_extends_of_ok h).calls s).trans
    (c.service.calls_callWithin c.deadline e.name .event _ s)

/-- An event writes nothing. -/
theorem output_invoke (e : EventType) (request : e.Request) (s : σ) :
    Act.output ((c.invoke e request).run s).acts = [] := by
  cases h : Payload.pack e.request request with
  | error f => rw [run_invoke_of_error h, Act.output, List.flatMap_nil]
  | ok payload =>
    exact ((invoke_extends_of_ok h).output s).trans
      (c.service.output_callWithin c.deadline e.name .event _ s)

/-- Whether an event succeeded is told by what it gave, and a failure is logged. -/
theorem acknowledge_extends (e : EventType) (request : e.Request) :
    (c.acknowledge e request).Extends (c.invoke e request) := by
  refine extends_bind (fun answer => ?_) _
  cases answer with
  | error f => exact onlyLogs_log_pure _ _ _ _
  | ok reply => exact onlyLogs_pure _

/-- What an event fetched is what it gave, and a failure or an empty reply is logged. -/
theorem fetch_extends (e : EventType) (request : e.Request) :
    (c.fetch e request).Extends (c.invoke e request) := by
  refine extends_bind (fun answer => ?_) _
  rcases answer with f | _ | reply
  · exact onlyLogs_log_pure _ _ _ _
  · exact onlyLogs_log_pure _ _ _ _
  · exact onlyLogs_pure _

end Client

open Session in
/-- An operation is its event and some logging. -/
theorem Operation.run_extends (c : Client σ) (o : Operation) :
    (o.run c).Extends (c.invoke o.event o.request) := by
  cases o with
  | registerUser _ | follow _ _ =>
    refine (extends_bind (fun ok => ?_) _).trans (c.acknowledge_extends _ _)
    cases ok
    · exact onlyLogs_pure _
    · exact onlyLogs_log_pure _ _ _ _
  | profile username => exact c.fetch_extends .profile _
  | post username text parent =>
    refine (extends_bind (fun reply => ?_) _).trans (c.fetch_extends .post _)
    rcases reply with _ | ⟨_ | caw⟩
    · exact onlyLogs_pure _
    · exact onlyLogs_log_pure _ _ _ _
    · exact onlyLogs_pure _
  | read cawId =>
    exact (extends_bind (fun _ => onlyLogs_pure _) _).trans (c.fetch_extends .read _)

/-- An operation leaves behind what its event leaves behind. -/
theorem Operation.state_run (c : Client σ) (o : Operation) (s : σ) :
    ((o.run c).run s).state = ((c.invoke o.event o.request).run s).state :=
  (o.run_extends c).state s

end FazClient
