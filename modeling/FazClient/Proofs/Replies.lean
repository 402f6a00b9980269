import FazClient.Proofs.Outgoing
import FazClient.Service.Scripted

/-!
# FazClient.Proofs.Replies

What the reply to an event makes an operation give back.  A reply counts if it is in time,
and it says something only if its payload is tagged as the operation's own reply and is read
as one; whether it may also say nothing is up to the operation.

* `Payload.unpack_eq_ok_iff` — what is unpacked, and from which payloads;
* `Client.invoke_eq_ok_iff` — which replies an event understands, and as what;
* `Operation.result_run` — what an operation makes of what its event understood;
* `replies_decide_results` — which replies an operation grants its result for.
-/

namespace FazClient

open Wire

/-! ## What a reply says -/

/-- The reply carries this message: its tag names the schema, and its bytes are read as the
message. -/
def EventReply.Carries (answer : EventReply) (s : PayloadSchema) (m : s.Message) : Prop :=
  ∃ a, answer.payload = some a ∧ Payload.typeName? a.typeUrl = some s.fullName ∧
    decode (.payload s) a.value = .ok m

/-- The reply has no payload, or it carries this message. -/
def EventReply.Says (answer : EventReply) (s : PayloadSchema) : Option s.Message → Prop
  | none => answer.payload = none
  | some m => answer.Carries s m

theorem Wire.PayloadSchema.fullName_injective {s t : PayloadSchema}
    (h : s.fullName = t.fullName) : s = t := by
  have hall : ∀ s ∈ all, ∀ t ∈ all, s.fullName = t.fullName → s = t := by decide +kernel
  exact hall s s.mem_all t t.mem_all h

namespace Payload

theorem unpack_eq_ok_iff {s : PayloadSchema} {a : Any} {m : s.Message} :
    unpack s a = .ok m ↔
      typeName? a.typeUrl = some s.fullName ∧ decode (.payload s) a.value = .ok m := by
  rw [unpack]
  by_cases htag : typeName? a.typeUrl = some s.fullName
  · simp [htag, mapError_eq_ok_iff]
  · simp [htag]

/-- What is packed takes no more than the limit. -/
theorem length_le_of_pack {s : PayloadSchema} {m : s.Message} {a : Any}
    (h : pack s m = .ok a) : (encode (.payload s) m).length ≤ limit := by
  refine Nat.le_of_not_lt fun hlarge => ?_
  obtain ⟨text, herror⟩ := pack_eq_error hlarge
  rw [herror] at h
  contradiction

/-- What is packed is carried. -/
theorem carries_of_pack {s : PayloadSchema} {m : s.Message} {a : Any} (h : pack s m = .ok a) :
    EventReply.Carries ⟨some a⟩ s m := by
  have hfits := length_le_of_pack h
  have ha : a = ⟨typeUrl s, encode (.payload s) m⟩ := by
    rw [pack_eq_ok hfits, Except.ok.injEq] at h
    exact h.symm
  exact ⟨a, rfl, unpack_eq_ok_iff.1 (ha ▸ unpack_pack hfits)⟩

/-- What is packed is not carried as anything else. -/
theorem not_carries_of_pack {s t : PayloadSchema} {m : s.Message} {a : Any}
    (h : pack s m = .ok a) (hne : s ≠ t) (n : t.Message) :
    ¬ EventReply.Carries ⟨some a⟩ t n := by
  rintro ⟨_, ⟨⟩, hname, -⟩
  obtain ⟨_, ⟨⟩, hname', -⟩ := carries_of_pack h
  rw [hname, Option.some.injEq] at hname'
  exact hne (PayloadSchema.fullName_injective hname'.symm)

end Payload

/-! ## Events -/

/-- What an event makes of the answer to its call. -/
def EventType.understand (e : EventType) :
    Except Failure EventReply → Except Failure (Option e.Reply)
  | .error f => .error f
  | .ok ⟨none⟩ => .ok none
  | .ok ⟨some a⟩ => ((Payload.unpack e.reply a).mapError .decode).map some

/-- A reply is understood if it has no payload, and if it carries the reply of the event. -/
theorem EventType.understand_eq_ok_iff {e : EventType} {answer : Except Failure EventReply}
    {reply? : Option e.Reply} :
    e.understand answer = .ok reply? ↔ ∃ r, answer = .ok r ∧ r.Says e.reply reply? := by
  rcases answer with f | ⟨_ | a⟩
  · simp [understand]
  · cases reply? <;> simp [understand, EventReply.Says, EventReply.Carries]
  · cases reply? <;>
      simp [understand, map_eq_ok_iff, mapError_eq_ok_iff, EventReply.Says, EventReply.Carries,
        Payload.unpack_eq_ok_iff]

namespace Client

open Session

variable {c : Client σ} {e : EventType} {request : e.Request} {payload : Any}

/-- An event makes its result of the answer that it sees. -/
theorem result_invoke_of_ok (h : Payload.pack e.request request = .ok payload) (s : σ) :
    ((c.invoke e request).run s).result = e.understand
      ((c.service.serve .event ⟨e.value, some payload⟩ s).within c.deadline e.name) := by
  show _ = e.understand
    ((c.service.callWithin c.deadline e.name .event ⟨e.value, some payload⟩).run s).result
  rw [invoke, h]
  simp only [run_bind, run_log]
  rcases (c.service.callWithin c.deadline e.name .event ⟨e.value, some payload⟩).run s with
    ⟨f | ⟨_ | a⟩, s', acts⟩
  · rfl
  · rfl
  · simp only [EventType.understand]
    cases Payload.unpack e.reply a <;> rfl

/-- An event whose request can be packed understands the replies that are in time and say
nothing or carry its own reply. -/
theorem invoke_eq_ok_iff (h : Payload.pack e.request request = .ok payload) {s : σ}
    {reply? : Option e.Reply} :
    ((c.invoke e request).run s).result = .ok reply? ↔
      ∃ answer, (c.service.serve .event ⟨e.value, some payload⟩ s).InTime c.deadline (.ok answer) ∧
        EventReply.Says answer e.reply reply? := by
  rw [result_invoke_of_ok h, EventType.understand_eq_ok_iff]
  exact exists_congr fun answer => and_congr_left fun _ => Served.within_eq_ok_iff e.name

/-- What is logged after a success does not show in the result. -/
theorem result_log_if (session : Session σ Bool) (l : Level) (m : String)
    (fs : List (String × String)) (s : σ) :
    ((do
      let ok ← session
      if ok then
        log l m fs
      return ok : Session σ Bool).run s).result = (session.run s).result := by
  simp only [run_bind]
  cases (session.run s).result <;> rfl

theorem result_acknowledge (e : EventType) (request : e.Request) (s : σ) :
    ((c.acknowledge e request).run s).result = ((c.invoke e request).run s).result.isOk := by
  simp only [acknowledge, run_bind]
  cases ((c.invoke e request).run s).result <;> rfl

theorem result_fetch (e : EventType) (request : e.Request) (s : σ) :
    ((c.fetch e request).run s).result = ((c.invoke e request).run s).result.toOption.join := by
  simp only [fetch, run_bind]
  rcases ((c.invoke e request).run s).result with f | _ | reply <;> rfl

theorem result_post (username text parent : String) (s : σ) :
    ((c.post username text parent).run s).result =
      ((c.fetch .post (CawRequest.of username text parent)).run s).result.bind CawReply.caw := by
  simp only [post, run_bind]
  rcases ((c.fetch .post (CawRequest.of username text parent)).run s).result with _ | ⟨_ | caw⟩ <;>
    rfl

end Client

/-! ## Operations -/

namespace Operation

/-- What the operation gives back when it fails. -/
def failed : (o : Operation) → o.Result
  | registerUser _ => false
  | follow _ _ => false
  | profile _ => none
  | post _ _ _ => none
  | read _ => none

/-- What the operation gives back when its event succeeds, with a reply or without one. -/
def gives : (o : Operation) → Option o.event.Reply → o.Result
  | registerUser _, _ => true
  | follow _ _, _ => true
  | profile _, reply? => reply?
  | post _ _ _, reply? => reply?.bind CawReply.caw
  | read _, reply? => reply?.map ReadReply.caws

/-- What an operation makes of what its event understood. -/
theorem result_run (c : Client σ) (o : Operation) (s : σ) :
    ((o.run c).run s).result =
      match ((c.invoke o.event o.request).run s).result with
      | .ok reply? => o.gives reply?
      | .error _ => o.failed := by
  have hacknowledge := c.result_acknowledge o.event o.request s
  have hfetch := c.result_fetch o.event o.request s
  generalize ((c.invoke o.event o.request).run s).result = understood at hacknowledge hfetch ⊢
  cases o with
  | registerUser _ | follow _ _ =>
    refine (Client.result_log_if _ _ _ _ s).trans (hacknowledge.trans ?_)
    cases understood <;> rfl
  | profile _ =>
    refine hfetch.trans ?_
    rcases understood with f | _ | reply <;> rfl
  | post _ _ _ =>
    refine (c.result_post _ _ _ s).trans ((congrArg (Option.bind · CawReply.caw) hfetch).trans ?_)
    rcases understood with f | _ | reply <;> rfl
  | read _ =>
    refine (congrArg (Option.map ReadReply.caws) hfetch).trans ?_
    rcases understood with f | _ | reply <;> rfl

section

variable {c : Client σ} {o : Operation} (hfits : o.Fits) {s : σ}
  {answer : Except Failure EventReply}
  (hin : (c.service.serve .event o.envelope s).InTime c.deadline answer)

include hfits hin

theorem result_invoke_of_inTime :
    ((c.invoke o.event o.request).run s).result = o.event.understand answer := by
  rw [Client.result_invoke_of_ok (Payload.pack_eq_ok (o.fits_iff.1 hfits)),
    ← Served.within_eq_of_inTime hin o.event.name]
  rfl

/-- An answer that is in time and understood gives the operation its result. -/
theorem result_run_of_understood {reply? : Option o.event.Reply}
    (h : o.event.understand answer = .ok reply?) :
    ((o.run c).run s).result = o.gives reply? := by
  rw [result_run, result_invoke_of_inTime hfits hin, h]

/-- An answer that is in time and not understood fails the operation. -/
theorem result_run_of_not_understood {f : Failure} (h : o.event.understand answer = .error f) :
    ((o.run c).run s).result = o.failed := by
  rw [result_run, result_invoke_of_inTime hfits hin, h]

end

/-- A result other than failure is given for what the event understood. -/
theorem result_run_eq_iff {c : Client σ} {o : Operation} {s : σ} {v : o.Result}
    (h : v ≠ o.failed) :
    ((o.run c).run s).result = v ↔
      ∃ reply?, ((c.invoke o.event o.request).run s).result = .ok reply? ∧ o.gives reply? = v := by
  rw [result_run]
  cases ((c.invoke o.event o.request).run s).result with
  | error f => simp [h.symm]
  | ok reply? => simp

/-- The reply grants this result.  An account is created and a user followed also where the
reply says nothing; a reply without a caw grants nothing to a post. -/
def Grants (answer : EventReply) : (o : Operation) → o.Result → Prop
  | registerUser _, v =>
    v = true ∧ (answer.payload = none ∨ ∃ m, answer.Carries .registerUserReply m)
  | follow _ _, v => v = true ∧ (answer.payload = none ∨ ∃ m, answer.Carries .followReply m)
  | profile _, v => ∃ reply, v = some reply ∧ answer.Carries .profileReply reply
  | post _ _ _, v => ∃ caw, v = some caw ∧ answer.Carries .cawReply ⟨some caw⟩
  | read _, v => ∃ caws, v = some caws ∧ answer.Carries .readReply ⟨caws⟩

/-- A reply grants what is given back for the message that it carries, unless that is
nothing. -/
theorem grants_iff {o : Operation} {answer : EventReply} {v : o.Result} :
    o.Grants answer v ↔
      v ≠ o.failed ∧ ∃ reply?, answer.Says o.event.reply reply? ∧ o.gives reply? = v := by
  cases o with
  | registerUser _ | follow _ _ =>
    constructor
    · rintro ⟨rfl, hnone | ⟨m, hm⟩⟩
      · exact ⟨nofun, none, hnone, rfl⟩
      · exact ⟨nofun, some m, hm, rfl⟩
    · rintro ⟨-, _ | m, hsays, rfl⟩
      · exact ⟨rfl, .inl hsays⟩
      · exact ⟨rfl, .inr ⟨m, hsays⟩⟩
  | profile _ | read _ =>
    constructor
    · rintro ⟨v, rfl, h⟩
      exact ⟨nofun, some _, h, rfl⟩
    · rintro ⟨hne, _ | reply, hsays, rfl⟩
      · exact absurd rfl hne
      · exact ⟨_, rfl, hsays⟩
  | post _ _ _ =>
    constructor
    · rintro ⟨caw, rfl, h⟩
      exact ⟨nofun, some _, h, rfl⟩
    · rintro ⟨hne, _ | ⟨_ | caw⟩, hsays, rfl⟩
      · exact absurd rfl hne
      · exact absurd rfl hne
      · exact ⟨caw, rfl, hsays⟩

end Operation

/-- **Replies**: whatever the service answers, an operation whose request is within the limit
gives back a result other than failure just if a reply that is in time grants it.  In
particular, what is packed as the operation's own reply comes back unchanged, and what is
packed as anything else is a failure. -/
theorem replies_decide_results (c : Client σ) (o : Operation) (s : σ) (hfits : o.Fits) :
    let served := c.service.serve .event o.envelope s
    let result := ((o.run c).run s).result
    (∀ v, v ≠ o.failed →
      (result = v ↔ ∃ answer, served.InTime c.deadline (.ok answer) ∧ o.Grants answer v)) ∧
    (∀ (m : o.event.Reply) a, Payload.pack o.event.reply m = .ok a →
      served.InTime c.deadline (.ok ⟨some a⟩) → result = o.gives (some m)) ∧
    ∀ t, t ≠ o.event.reply → ∀ (m : t.Message) a, Payload.pack t m = .ok a →
      served.InTime c.deadline (.ok ⟨some a⟩) → result = o.failed := by
  intro served result
  have hpack := Payload.pack_eq_ok (o.fits_iff.1 hfits)
  have hinvoke : ∀ reply?, ((c.invoke o.event o.request).run s).result = .ok reply? ↔
      ∃ answer, served.InTime c.deadline (.ok answer) ∧
        EventReply.Says answer o.event.reply reply? :=
    fun reply? => Client.invoke_eq_ok_iff hpack
  refine ⟨fun v hv => ?_, fun m a h hanswer => ?_, fun t hne m a h hanswer => ?_⟩
  · simp only [result, Operation.result_run_eq_iff hv, hinvoke]
    constructor
    · rintro ⟨reply?, ⟨answer, hin, hsays⟩, hgives⟩
      exact ⟨answer, hin, Operation.grants_iff.2 ⟨hv, reply?, hsays, hgives⟩⟩
    · rintro ⟨answer, hin, hgrants⟩
      obtain ⟨-, reply?, hsays, hgives⟩ := Operation.grants_iff.1 hgrants
      exact ⟨reply?, ⟨answer, hin, hsays⟩, hgives⟩
  · have hunderstood := (hinvoke (some m)).2 ⟨⟨some a⟩, hanswer, Payload.carries_of_pack h⟩
    simp only [result, Operation.result_run, hunderstood]
  · -- The one reply that is in time is tagged as something else, so nothing is understood.
    have hnot : ∀ reply?, ((c.invoke o.event o.request).run s).result ≠ .ok reply? := by
      intro reply? hunderstood
      obtain ⟨answer, hin, hsays⟩ := (hinvoke reply?).1 hunderstood
      obtain rfl := Except.ok.inj (hin.unique hanswer)
      cases reply? with
      | none => contradiction
      | some reply => exact Payload.not_carries_of_pack h hne reply hsays
    simp only [result, Operation.result_run]
    split
    · next reply? hunderstood => exact absurd hunderstood (hnot reply?)
    · rfl

/-- A thread without caws is a result although it takes no bytes, where it arrives at the
deadline and under another prefix; a packed reply of no bytes of another kind is none. -/
theorem replies_decide_results_no_caws :
    let client : Client (List ScriptedReply) := ⟨.scripted, 100⟩
    let thread : Any := ⟨"x.org/y/caw.ReadReply", []⟩
    let other : Any := ⟨"type.googleapis.com/caw.CawReply", []⟩
    let read := Operation.read "p1"
    read.Fits ∧
      ((read.run client).run [{ delay := some 100, payload := some thread }]).result = some [] ∧
      ((read.run client).run [{ payload := some other }]).result = none := by
  intro client thread other read
  have hfits : read.Fits := by
    rw [Operation.Fits, length_encode]
    decide +kernel
  have hcarries : EventReply.Carries ⟨some thread⟩ .readReply ⟨[]⟩ :=
    ⟨thread, rfl, by decide +kernel, rfl⟩
  have hother : Payload.pack .cawReply {} = .ok other := rfl
  obtain ⟨hgranted, -, -⟩ := replies_decide_results client read
    [{ delay := some 100, payload := some thread }] hfits
  obtain ⟨-, -, hfailed⟩ := replies_decide_results client read [{ payload := some other }] hfits
  exact ⟨hfits,
    (hgranted (some []) (Option.some_ne_none [])).2
      ⟨⟨some thread⟩, ⟨100, Nat.le_refl _, rfl⟩, [], rfl, hcarries⟩,
    hfailed .cawReply (by decide) {} other hother ⟨0, Nat.zero_le _, rfl⟩⟩

end FazClient
