import FazClient.Proofs.Bindings
import FazClient.Proofs.Refinement
import FazClient.Connection.Scripted
import Mathlib.Data.List.Forall2

/-!
# FazClient.Proofs.Logging

What a client logs.  A failure passes through several layers, from the connection up to the
operation; one of them logs it, and no other does.

* `Service.withLogs` — the acts of a client, and what the service logs between them;
* `Session.Does` — what a computation logs itself, told together with its result, with one
  rule for `pure`, `log`, calls and `bind`;
* `Client.warns_invoke`, `Client.warns_acknowledge`, `Client.warns_fetch`, … — one lemma for
  each layer;
* `every_failure_is_logged_once` — what this means for sequences of tasks.
-/

namespace FazClient

/-- The entries of a log that warn. -/
def warnings (log : List LogEntry) : List LogEntry := log.filter (·.level = .warn)

@[simp] theorem warnings_nil : warnings [] = [] :=
  rfl

@[simp] theorem warnings_append (a b : List LogEntry) :
    warnings (a ++ b) = warnings a ++ warnings b :=
  List.filter_append a b

/-! ## Own acts -/

theorem Act.calls_cons (act : Act) (acts : List Act) :
    calls (act :: acts) = calls [act] ++ calls acts :=
  calls_append [act] acts

theorem Act.log_cons (act : Act) (acts : List Act) : log (act :: acts) = log [act] ++ log acts :=
  log_append [act] acts

namespace Service

variable (service : Service σ)

/-- What a service logs about some calls, one after the other. -/
def logs : σ → List Call → List LogEntry
  | _, [] => []
  | s, call :: calls =>
    let served := service.serveCall call s
    served.log ++ logs served.state calls

/-- Acts of a client, and behind each call what the service logs about it. -/
def withLogs : σ → List Act → List Act
  | _, [] => []
  | s, act :: acts =>
    let calls := Act.calls [act]
    act :: ((service.logs s calls).map .logged ++ withLogs (service.after s calls) acts)

theorem after_append (s : σ) (a b : List Call) :
    service.after s (a ++ b) = service.after (service.after s a) b :=
  List.foldl_append

theorem logs_append (s : σ) (a b : List Call) :
    service.logs s (a ++ b) = service.logs s a ++ service.logs (service.after s a) b := by
  induction a generalizing s with
  | nil => rfl
  | cons call a ih => simp [logs, ih, after]

theorem withLogs_append (s : σ) (a b : List Act) :
    service.withLogs s (a ++ b) =
      service.withLogs s a ++ service.withLogs (service.after s (Act.calls a)) b := by
  induction a generalizing s with
  | nil => rfl
  | cons act a ih =>
    rw [Act.calls_cons, after_append]
    simp [withLogs, ih]

/-- The own acts of a client can be told from what the service logs. -/
theorem withLogs_injective (s : σ) : Function.Injective (service.withLogs s) := by
  intro a b h
  induction a generalizing s b with
  | nil =>
    cases b with
    | nil => rfl
    | cons act b => contradiction
  | cons act a ih =>
    cases b with
    | nil => contradiction
    | cons act' b =>
      simp only [withLogs, List.cons.injEq] at h
      obtain ⟨rfl, h⟩ := h
      rw [ih _ (List.append_cancel_left h)]

@[simp] theorem calls_withLogs (s : σ) (acts : List Act) :
    Act.calls (service.withLogs s acts) = Act.calls acts := by
  induction acts generalizing s with
  | nil => rfl
  | cons act acts ih =>
    rw [withLogs, Act.calls_cons, Act.calls_append, Act.calls_map_logged, ih, List.nil_append,
      ← Act.calls_cons]

/-- The log of a run is made of what the client logs and of what the service does. -/
theorem log_withLogs_perm (s : σ) (acts : List Act) :
    (Act.log (service.withLogs s acts)).Perm
      (Act.log acts ++ service.logs s (Act.calls acts)) := by
  induction acts generalizing s with
  | nil => exact .nil
  | cons act acts ih =>
    have hcalls : Act.calls (act :: acts) = Act.calls [act] ++ Act.calls acts :=
      Act.calls_cons act acts
    have hrest := ih (service.after s (Act.calls [act]))
    rw [withLogs, Act.log_cons, Act.log_append, Act.log_map_logged, hcalls, logs_append,
      Act.log_cons act acts, List.append_assoc]
    refine ((hrest.append_left _).trans ?_).append_left _
    rw [← List.append_assoc, ← List.append_assoc]
    exact List.perm_append_comm.append_right _

end Service

/-! ## What computations log -/

/-- What a computation does itself, between calls that it makes with the service, is told by a
relation between its result and its own acts.  Only the calls change the state of the service. -/
def Session.Does (service : Service σ) (session : Session σ α) (P : α → List Act → Prop) :
    Prop :=
  ∀ s, ∃ own, (session.run s).acts = service.withLogs s own ∧
    (session.run s).state = service.after s (Act.calls own) ∧ P (session.run s).result own

namespace Session

variable {service : Service σ} {P : α → List Act → Prop}

theorem does_pure {a : α} (h : P a []) : Does service (pure a) P :=
  fun _ => ⟨[], rfl, rfl, h⟩

theorem does_log {l : Level} {m : String} {fs : List (String × String)}
    {P : Unit → List Act → Prop} (h : P () [.logged ⟨l, m, fs⟩]) :
    Does service (log l m fs) P :=
  fun _ => ⟨[.logged ⟨l, m, fs⟩], rfl, rfl, h⟩

theorem does_callWithin {deadline : Nat} {what : String} {m : Method} {request : m.Request}
    {P : Except Failure m.Reply → List Act → Prop} (h : ∀ answer, P answer [.called ⟨m, request⟩]) :
    Does service (service.callWithin deadline what m request) P := by
  intro s
  refine ⟨[.called ⟨m, request⟩], ?_, rfl, h _⟩
  simp [Service.withLogs, Service.logs, Service.serveCall]

theorem Does.bind {session : Session σ α} {f : α → Session σ β} {Q : β → List Act → Prop}
    (hsession : Does service session P)
    (hf : ∀ a, Does service (f a) fun b later => ∀ own, P a own → Q b (own ++ later)) :
    Does service (session >>= f) Q := by
  intro s
  obtain ⟨own, hacts, hstate, hown⟩ := hsession s
  obtain ⟨later, hacts', hstate', hlater⟩ := hf (session.run s).result (session.run s).state
  refine ⟨own ++ later, ?_, ?_, hlater own hown⟩
  · rw [run_bind, Service.withLogs_append, ← hstate, ← hacts, ← hacts']
  · rw [run_bind, Act.calls_append, Service.after_append, ← hstate, ← hstate']

theorem does_log_pure {l : Level} {m : String} {fs : List (String × String)} {a : α}
    (h : P a [.logged ⟨l, m, fs⟩]) : Does service (log l m fs >>= fun _ => pure a) P :=
  fun _ => ⟨[.logged ⟨l, m, fs⟩], rfl, rfl, h⟩

end Session

/-! ## Warnings -/

/-- What a computation does itself, as far as it warns. -/
def Session.Warns (service : Service σ) (session : Session σ α)
    (W : α → List LogEntry → Prop) : Prop :=
  session.Does service fun a own => W a (warnings (Act.log own))

namespace Session

variable {service : Service σ} {W : α → List LogEntry → Prop}

theorem warns_pure {a : α} (h : W a []) : Warns service (pure a) W :=
  does_pure h

theorem warns_log_pure {l : Level} {m : String} {fs : List (String × String)} {a : α}
    (h : W a (warnings [⟨l, m, fs⟩])) : Warns service (log l m fs >>= fun _ => pure a) W :=
  does_log_pure h

theorem Warns.bind {session : Session σ α} {f : α → Session σ β}
    {W' : β → List LogEntry → Prop} (hsession : Warns service session W)
    (hf : ∀ a, Warns service (f a) fun b later => ∀ before, W a before → W' b (before ++ later)) :
    Warns service (session >>= f) W' := by
  refine Does.bind hsession fun a s => ?_
  obtain ⟨later, hacts, hstate, hlater⟩ := hf a s
  refine ⟨later, hacts, hstate, fun own hown => ?_⟩
  rw [Act.log_append, warnings_append]
  exact hlater _ hown

/-- What comes before makes no difference if it does not warn. -/
theorem Warns.bind_of_quiet {session : Session σ α} {f : α → Session σ β}
    {W' : β → List LogEntry → Prop} (hsession : Warns service session fun _ warned => warned = [])
    (hf : ∀ a, Warns service (f a) W') : Warns service (session >>= f) W' := by
  refine hsession.bind fun a s => ?_
  obtain ⟨later, hacts, hstate, hlater⟩ := hf a s
  refine ⟨later, hacts, hstate, fun before hbefore => ?_⟩
  rwa [hbefore, List.nil_append]

end Session

/-- The warnings about an event: none if it succeeded, and else one, which names its type. -/
def EventType.Warned (e : EventType) : (ok : Bool) → (warned : List LogEntry) → Prop
  | true, warned => warned = []
  | false, warned => ∃ entry, warned = [entry] ∧ ("event", e.name) ∈ entry.fields

namespace Client

open Session

variable (c : Client σ)

/-- An event does not warn, whatever comes of it. -/
theorem warns_invoke (e : EventType) (request : e.Request) :
    Warns c.service (c.invoke e request) fun _ warned => warned = [] := by
  rw [invoke]
  cases Payload.pack e.request request with
  | error f => exact warns_pure rfl
  | ok payload =>
    have hsending : Warns c.service (log .trace "Sending event" [("event", e.name)])
        fun _ warned => warned = [] := does_log rfl
    have hcall : Warns c.service (c.service.callWithin c.deadline e.name .event
        ⟨e.value, some payload⟩) fun _ warned => warned = [] := does_callWithin fun _ => rfl
    refine hsending.bind_of_quiet fun _ => hcall.bind_of_quiet fun answer => ?_
    rcases answer with f | ⟨_ | a⟩
    · exact warns_pure rfl
    · exact warns_log_pure rfl
    · cases hreply : Payload.unpack e.reply a <;> simp only [hreply] <;> exact warns_pure rfl

/-- A failure is logged here if the reply need not say anything. -/
theorem warns_acknowledge (e : EventType) (request : e.Request) :
    Warns c.service (c.acknowledge e request) e.Warned := by
  refine (c.warns_invoke e request).bind_of_quiet fun answer => ?_
  cases answer with
  | ok reply => exact warns_pure rfl
  | error f => exact warns_log_pure ⟨_, rfl, List.mem_cons_self⟩

/-- A failure is logged here if the reply must carry a payload. -/
theorem warns_fetch (e : EventType) (request : e.Request) :
    Warns c.service (c.fetch e request) fun reply => e.Warned reply.isSome := by
  refine (c.warns_invoke e request).bind_of_quiet fun answer => ?_
  rcases answer with f | _ | reply
  · exact warns_log_pure ⟨_, rfl, List.mem_cons_self⟩
  · exact warns_log_pure ⟨_, rfl, List.mem_cons_self⟩
  · exact warns_pure rfl

/-- What is logged after a success is no warning. -/
theorem warns_log_if {session : Session σ Bool} {W : Bool → List LogEntry → Prop}
    (h : Warns c.service session W) (m : String) (fs : List (String × String)) :
    Warns c.service (do
      let ok ← session
      if ok then
        log .info m fs
      return ok) W := by
  refine h.bind fun ok => ?_
  cases ok with
  | false => exact warns_pure fun warned hwarned => by rwa [List.append_nil]
  | true =>
    refine warns_log_pure fun warned hwarned => ?_
    rw [show warnings [⟨.info, m, fs⟩] = [] from rfl, List.append_nil]
    exact hwarned

/-- A reply without a caw is a success of the event and a failure of the post. -/
theorem warns_post (username text parent : String) :
    Warns c.service (c.post username text parent) fun caw => EventType.post.Warned caw.isSome := by
  refine (c.warns_fetch .post _).bind fun reply => ?_
  rcases reply with _ | ⟨_ | caw⟩
  · exact warns_pure fun warned hwarned => by rwa [List.append_nil]
  · refine warns_log_pure fun warned hwarned => ?_
    obtain rfl : warned = [] := hwarned
    exact ⟨_, rfl, List.mem_cons_self⟩
  · exact warns_pure fun warned hwarned => by rwa [List.append_nil]

theorem warns_read (cawId : String) :
    Warns c.service (c.read cawId) fun caws => EventType.read.Warned caws.isSome := by
  refine (c.warns_fetch .read _).bind fun reply => ?_
  cases reply <;> exact warns_pure fun warned hwarned => by rwa [List.append_nil]

end Client

/-- Whether the operation succeeded, by what it gives back. -/
def Operation.isOk : (o : Operation) → o.Result → Bool
  | registerUser _, ok => ok
  | follow _ _, ok => ok
  | profile _, reply => reply.isSome
  | post _ _ _, caw => caw.isSome
  | read _, caws => caws.isSome

/-- An operation warns once if it fails, and else not at all. -/
theorem Operation.warns_run (c : Client σ) (o : Operation) :
    (o.run c).Warns c.service fun v => o.event.Warned (o.isOk v) := by
  cases o with
  | registerUser username => exact c.warns_log_if (c.warns_acknowledge _ _) _ _
  | follow username toFollow => exact c.warns_log_if (c.warns_acknowledge _ _) _ _
  | profile username => exact c.warns_fetch .profile _
  | post username text parent => exact c.warns_post username text parent
  | read cawId => exact c.warns_read cawId

/-! ## Handlers -/

/-- The entry tells an outcome: it names the type of event and the handler, and it warns,
with the reason, just if there is an error. -/
structure HookOutcome.LoggedAs (o : HookOutcome) (entry : LogEntry) : Prop where
  event : ("event", o.event.name) ∈ entry.fields
  handler : ("handler", o.handler) ∈ entry.fields
  level : entry.level = if o.isOk then .info else .warn
  reason : ∀ text, o.error = some text → ("error", text) ∈ entry.fields

/-- The entry of the registry that an outcome is about. -/
def HookOutcome.entry (o : HookOutcome) : EventType × String := (o.event, o.handler)

namespace Client

open Session

variable (c : Client σ)

/-- The outcome of one handler is logged. -/
theorem logs_driveOne (a : HookAction) (e : EventType) (handler : String) :
    Does c.service (c.driveOne a e handler) fun outcome own =>
      outcome.entry = (e, handler) ∧ ∃ entry, Act.log own = [entry] ∧ outcome.LoggedAs entry := by
  have hcall : Does c.service (c.service.callWithin c.deadline a.verb a.method
      (a.request e handler)) fun _ own => Act.log own = [] := does_callWithin fun _ => rfl
  refine hcall.bind fun answer => ?_
  have hlog : ∀ own entry, Act.log own = [] → Act.log (own ++ [.logged entry]) = [entry] := by
    intro own entry hown
    rw [Act.log_append, hown]
    rfl
  cases answer with
  | ok reply =>
    refine does_log_pure fun own hown => ⟨rfl, _, hlog own _ hown, ?_⟩
    exact ⟨by simp, by simp, rfl, nofun⟩
  | error f =>
    refine does_log_pure fun own hown => ⟨rfl, _, hlog own _ hown, ?_⟩
    exact ⟨by simp, by simp, rfl, by simp⟩

/-- The outcomes of all handlers are logged, in order. -/
theorem logs_driveAll (a : HookAction) (entries : List (EventType × String)) :
    Does c.service (c.driveAll a entries) fun outcomes own =>
      outcomes.map HookOutcome.entry = entries ∧
        List.Forall₂ HookOutcome.LoggedAs outcomes (Act.log own) := by
  induction entries with
  | nil => exact does_pure ⟨rfl, .nil⟩
  | cons entry rest ih =>
    obtain ⟨e, handler⟩ := entry
    refine (c.logs_driveOne a e handler).bind fun outcome => ?_
    refine ih.bind fun outcomes => ?_
    refine does_pure fun later hlater own hown => ?_
    obtain ⟨hentries, hlogged⟩ := hlater
    obtain ⟨hentry, entry, hown, hone⟩ := hown
    rw [Act.log_append, hown, List.append_nil, List.map_cons, hentry, hentries]
    exact ⟨rfl, .cons hone hlogged⟩

end Client

/-! ## Tasks -/

namespace Task

/-- What a task logs of its result.  An event as such logs no failure, for it is its caller's
to know what to make of it. -/
def Logs : (t : Task) → t.Result → List LogEntry → Prop
  | report _, outcomes, log =>
    outcomes.map HookOutcome.entry = registry ∧
      List.Forall₂ HookOutcome.LoggedAs outcomes log
  | invoke _ _, _, log => warnings log = []
  | perform o, v, log => o.event.Warned (o.isOk v) (warnings log)

/-- How many failures the result of a task holds that are to be logged. -/
def failures : (t : Task) → t.Result → Nat
  | report _, outcomes => outcomes.countP fun o => !o.isOk
  | invoke _ _, _ => 0
  | perform o, v => if o.isOk v then 0 else 1

/-- How many there are in the results of a sequence. -/
def failuresAll : List ((t : Task) × t.Result) → Nat
  | [] => 0
  | ⟨t, result⟩ :: results => t.failures result + failuresAll results

variable (c : Client σ)

/-- Every task logs its own failures. -/
theorem logs_run (t : Task) :
    (t.run c).Does c.service fun result own => t.Logs result (Act.log own) := by
  cases t with
  | report a => exact c.logs_driveAll a registry
  | invoke e request => exact c.warns_invoke e request
  | perform o => exact o.warns_run c

/-- The tasks of a sequence log one after the other. -/
theorem logs_runAll (tasks : List Task) :
    (runAll c tasks).Does c.service fun results own =>
      results.map Sigma.fst = tasks ∧ ∃ owns : List (List Act), own = owns.flatten ∧
        List.Forall₂ (fun r own => r.1.Logs r.2 (Act.log own)) results owns := by
  induction tasks with
  | nil => exact Session.does_pure ⟨rfl, [], rfl, .nil⟩
  | cons t tasks ih =>
    refine (logs_run c t).bind fun result => ?_
    refine ih.bind fun results => ?_
    refine Session.does_pure fun later hlater own hown => ?_
    obtain ⟨rfl, owns, rfl, hlogged⟩ := hlater
    exact ⟨rfl, own :: owns, by simp, .cons hown hlogged⟩

end Task

/-! ## How many warnings there are -/

theorem length_warnings_of_outcomes {outcomes : List HookOutcome} {log : List LogEntry}
    (h : List.Forall₂ HookOutcome.LoggedAs outcomes log) :
    (warnings log).length = outcomes.countP fun o => !o.isOk := by
  induction h with
  | nil => rfl
  | @cons o entry outcomes log hlogged _ ih =>
    have hone : (warnings [entry]).length = if o.isOk then 0 else 1 := by
      rw [warnings, List.filter_singleton, hlogged.level]
      cases o.isOk <;> rfl
    rw [← List.singleton_append, warnings_append, List.length_append, hone, ih,
      List.countP_cons, Nat.add_comm]
    cases o.isOk <;> rfl

theorem EventType.Warned.length_eq {e : EventType} {ok : Bool} {warned : List LogEntry}
    (h : e.Warned ok warned) : warned.length = if ok then 0 else 1 := by
  cases ok with
  | true => exact congrArg List.length h
  | false =>
    obtain ⟨entry, rfl, -⟩ := h
    rfl

theorem Task.Logs.length_warnings {t : Task} {result : t.Result} {log : List LogEntry}
    (h : t.Logs result log) : (warnings log).length = t.failures result := by
  cases t with
  | report a => exact length_warnings_of_outcomes h.2
  | invoke e request => exact congrArg List.length h
  | perform o => exact EventType.Warned.length_eq h

theorem Task.length_warnings_flatten {results : List ((t : Task) × t.Result)}
    {owns : List (List Act)}
    (h : List.Forall₂ (fun r own => r.1.Logs r.2 (Act.log own)) results owns) :
    (warnings (Act.log owns.flatten)).length = failuresAll results := by
  induction h with
  | nil => rfl
  | cons hlogs _ ih =>
    rw [List.flatten_cons, Act.log_append, warnings_append, List.length_append, ih,
      hlogs.length_warnings, failuresAll]

/-- The warnings of a run are the client's and the service's. -/
theorem Service.length_warnings_withLogs (service : Service σ) (s : σ) (acts : List Act) :
    (warnings (Act.log (service.withLogs s acts))).length =
      (warnings (Act.log acts)).length +
        (warnings (service.logs s (Act.calls acts))).length := by
  rw [← List.length_append, ← warnings_append]
  exact ((service.log_withLogs_perm s acts).filter _).length_eq

/-- A sequence of tasks warns of its failures, and the service of what it likes. -/
theorem Task.length_warnings_runAll (c : Client σ) (s : σ) (tasks : List Task) :
    let ran := (runAll c tasks).run s
    (warnings (Act.log ran.acts)).length =
      Task.failuresAll ran.result +
        (warnings (c.service.logs s (Act.calls ran.acts))).length := by
  intro ran
  obtain ⟨_, hacts, -, -, owns, rfl, hlogs⟩ := logs_runAll c tasks s
  rw [show ran.acts = c.service.withLogs s owns.flatten from hacts,
    Service.length_warnings_withLogs, Service.calls_withLogs, length_warnings_flatten hlogs]

/-! ## Services that do not warn -/

/-- The service does not warn. -/
def Service.Quiet (service : Service σ) : Prop :=
  ∀ (m : Method) (request : m.Request) s, warnings (service.serve m request s).log = []

theorem Service.Quiet.warnings_logs {service : Service σ} (h : service.Quiet) (s : σ)
    (calls : List Call) : warnings (service.logs s calls) = [] := by
  induction calls generalizing s with
  | nil => rfl
  | cons call calls ih => rw [logs, warnings_append, ih, List.append_nil, serveCall, h]

/-- With a service that does not warn, all warnings are about failures. -/
theorem Task.length_warnings_of_quiet {c : Client σ} (h : c.service.Quiet) (s : σ)
    (tasks : List Task) :
    let ran := (runAll c tasks).run s
    (warnings (Act.log ran.acts)).length = Task.failuresAll ran.result := by
  intro ran
  rw [length_warnings_runAll, h.warnings_logs]
  rfl

/-! ## Connections -/

/-- What is logged with a verdict. -/
def Verdict.log : Verdict α → List LogEntry
  | skip log => log
  | settle _ log => log

namespace Connection

/-- No message is worth a warning, whether it ends the call or is dropped. -/
theorem warnings_judge (m : Method) (callId : UInt64) (msg : Incoming) :
    warnings (judge m callId msg).log = [] := by
  cases msg with
  | binary bytes =>
    simp only [judge]
    cases Frame.decode bytes with
    | error e => rfl
    | ok f =>
      simp only [judgeFrame]
      split
      · rfl
      · split <;> rfl
  | text _ | ping _ | pong _ | close | reset | ended | broken _ => rfl

theorem warnings_receive (m : Method) (callId : UInt64) (c : Connection)
    (messages : List Incoming) : warnings (receive m callId c messages).log = [] := by
  induction messages generalizing c with
  | nil => rfl
  | cons msg rest ih =>
    have hmsg := warnings_judge m callId msg
    rw [receive]
    cases hjudge : judge m callId msg with
    | settle answer log => rwa [hjudge] at hmsg
    | skip log =>
      rw [hjudge] at hmsg
      simp only [warnings_append, ih, List.append_nil]
      exact hmsg

/-- A connection does not warn. -/
theorem quiet_service (peer : Peer π) : (service peer).Quiet := by
  intro m request s
  obtain ⟨c, p⟩ := s
  simp only [service]
  split
  · rfl
  · dsimp only
    rw [← List.singleton_append, warnings_append, warnings_receive]
    rfl

end Connection

/-- **Failures are logged once**: whatever the service does, the tasks of a sequence log one
after the other, apart from what the service logs about its calls, which can be told from it in
one way only.  An operation warns once, naming its event, if it fails, and else not at all;
binding or unbinding the handlers logs one entry for each of them, in order, that names it and
warns just if its outcome has an error.  So there are as many warnings as failures, and those of
the service itself; a connection has none of its own, whatever it drops. -/
theorem every_failure_is_logged_once (c : Client σ) (s : σ) (tasks : List Task) :
    let ran := (Task.runAll c tasks).run s
    ran.result.map Sigma.fst = tasks ∧
      (∃ owns : List (List Act), ran.acts = c.service.withLogs s owns.flatten ∧
        (∀ acts, ran.acts = c.service.withLogs s acts → acts = owns.flatten) ∧
        List.Forall₂ (fun r own => r.1.Logs r.2 (Act.log own)) ran.result owns) ∧
      (warnings (Act.log ran.acts)).length =
        Task.failuresAll ran.result +
          (warnings (c.service.logs s (Act.calls ran.acts))).length ∧
      ∀ (π : Type) (peer : Connection.Peer π) (start : Connection × π),
        let framed := (Task.runAll ⟨Connection.service peer, c.deadline⟩ tasks).run start
        (warnings (Act.log framed.acts)).length =
          Task.failuresAll framed.result := by
  intro ran
  obtain ⟨_, hacts, -, htasks, owns, rfl, hlogs⟩ := Task.logs_runAll c tasks s
  have hunique : ∀ acts, ran.acts = c.service.withLogs s acts → acts = owns.flatten :=
    fun acts h => c.service.withLogs_injective s (h.symm.trans hacts)
  refine ⟨htasks, ⟨owns, hacts, hunique, hlogs⟩, Task.length_warnings_runAll c s tasks, ?_⟩
  intro π peer start framed
  exact Task.length_warnings_of_quiet (Connection.quiet_service peer) start tasks

/-- A reply to an earlier call is dropped, the reply behind it has no caw, and then the
connection is lost: one post and five handlers fail. -/
theorem every_failure_is_logged_once_stale :
    let stale : ScriptedMessage := .frame fun call => { call with callId := 0 }
    let reply : ScriptedMessage := .frame fun call =>
      .reply call .eventReply (EventReply.mk (some ⟨"type.googleapis.com/caw.CawReply", []⟩))
    let start : Connection × Script := ({}, { replies := [[stale, reply], [.other .close]] })
    let client : Client (Connection × Script) := ⟨Connection.service Script.peer, 100⟩
    let ran := (Task.runAll client [.perform (.post "a" "hi" ""), .report .unhook]).run start
    "Dropping stale reply" ∈ (Act.log ran.acts).map LogEntry.message ∧
      (warnings (Act.log ran.acts)).length = 6 := by
  intro stale reply start client ran
  obtain ⟨-, -, -, hframed⟩ := every_failure_is_logged_once client start
    [.perform (.post "a" "hi" ""), .report .unhook]
  have hcount := hframed Script Script.peer start
  have hfailures : Task.failuresAll ran.result = 6 := by decide +kernel
  exact ⟨by decide +kernel, hcount.trans hfailures⟩

end FazClient
