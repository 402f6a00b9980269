import FazClient.Client
import FazClient.Service.Scripted
import Mathlib.Logic.Function.Basic

/-!
# FazClient.Proofs.Bindings

Binding and unbinding the handlers of all types of event.  Every entry of the registry is
tried, whatever became of those before it, and its outcome tells how its own call went.

* `Client.calls_driveAll`, `Client.state_driveAll` — the calls that are made;
* `Client.tells_driveAll` — what the outcomes say about them;
* `Service.Keeps` — a service with a table of bindings, and what is in the table after the
  calls (`Service.Keeps.driveAll_of_ne`, `Service.Keeps.driveAll_of_isOk`);
  `Service.bindings` is one;
* `every_handler_is_tried` — what this means for the registry.
-/

namespace FazClient

/-! ## Calls about entries -/

/-- How a service serves a call. -/
def Service.serveCall (service : Service σ) (call : Call) (s : σ) :
    Served σ call.method.Reply :=
  service.serve call.method call.request s

/-- The state of a service after some calls. -/
def Service.after (service : Service σ) (s : σ) (calls : List Call) : σ :=
  calls.foldl (fun s call => (service.serveCall call s).state) s

/-- The call about an entry of the registry. -/
def HookAction.call : HookAction → EventType × String → Call
  | hook, (e, handler) => ⟨.hook, HookRequest.mk e.value handler⟩
  | unhook, (e, _) => ⟨.unhook, UnhookRequest.mk e.value⟩

theorem HookAction.call_eq (a : HookAction) (e : EventType) (handler : String) :
    a.call (e, handler) = ⟨a.method, a.request e handler⟩ := by
  cases a <;> rfl

/-- The outcome of an entry tells how the call about it was served. -/
structure HookOutcome.Tells (o : HookOutcome) (a : HookAction) (deadline : Nat)
    (entry : EventType × String) (served : Served σ α) : Prop where
  event : o.event = entry.1
  handler : o.handler = entry.2
  error_eq_none_iff : o.error = none ↔ ∃ reply, served.InTime deadline (.ok reply)
  error_of_failure : ∀ f, served.InTime deadline (.error f) → o.error = some f.message
  error_of_late : (∀ answer, ¬ served.InTime deadline answer) →
    o.error = some s!"timeout: {a.verb} exceeded {deadline}ms"

namespace Client

open Session

variable {c : Client σ} {a : HookAction}

/-- The error of an outcome is the text of what a caller sees go wrong. -/
theorem result_driveOne (e : EventType) (handler : String) (s : σ) :
    ((c.driveOne a e handler).run s).result =
      ⟨e, handler,
        match (c.service.serve a.method (a.request e handler) s).within c.deadline a.verb with
        | .ok _ => none
        | .error f => some f.message⟩ := by
  simp only [driveOne, run_bind, Service.run_callWithin]
  cases (c.service.serve a.method (a.request e handler) s).within c.deadline a.verb <;> rfl

theorem state_driveOne (e : EventType) (handler : String) (s : σ) :
    ((c.driveOne a e handler).run s).state =
      (c.service.serveCall (a.call (e, handler)) s).state := by
  rw [HookAction.call_eq, Service.serveCall]
  simp only [driveOne, run_bind, Service.run_callWithin]
  cases (c.service.serve a.method (a.request e handler) s).within c.deadline a.verb <;> rfl

theorem calls_driveOne (e : EventType) (handler : String) (s : σ) :
    Act.calls ((c.driveOne a e handler).run s).acts = [a.call (e, handler)] := by
  simp only [driveOne, run_bind, Service.run_callWithin]
  cases (c.service.serve a.method (a.request e handler) s).within c.deadline a.verb <;>
    simp [HookAction.call_eq]

/-- The outcome of one entry tells how the call about it was served. -/
theorem tells_driveOne (e : EventType) (handler : String) (s : σ) :
    ((c.driveOne a e handler).run s).result.Tells a c.deadline (e, handler)
      (c.service.serveCall (a.call (e, handler)) s) := by
  rw [result_driveOne, HookAction.call_eq, Service.serveCall]
  generalize c.service.serve a.method (a.request e handler) s = served
  refine ⟨rfl, rfl, ?_, fun f hfailure => ?_, fun hlate => ?_⟩
  · simp only [← Served.within_eq_ok_iff a.verb]
    cases served.within c.deadline a.verb <;> simp
  · rw [Served.within_eq_of_inTime hfailure]
  · simp only [Served.within_eq_exceeded hlate, Failure.message_exceeded]

theorem calls_driveAll (entries : List (EventType × String)) (s : σ) :
    Act.calls ((c.driveAll a entries).run s).acts = entries.map a.call := by
  induction entries generalizing s with
  | nil => rfl
  | cons entry rest ih =>
    obtain ⟨e, handler⟩ := entry
    simp [driveAll, calls_driveOne, ih]

theorem state_driveAll (entries : List (EventType × String)) (s : σ) :
    ((c.driveAll a entries).run s).state = c.service.after s (entries.map a.call) := by
  induction entries generalizing s with
  | nil => rfl
  | cons entry rest ih =>
    obtain ⟨e, handler⟩ := entry
    simp [driveAll, state_driveOne, ih, Service.after]

theorem tells_driveAll (entries : List (EventType × String)) (s : σ) :
    let outcomes := ((c.driveAll a entries).run s).result
    outcomes.length = entries.length ∧
      ∀ (i : Nat) entry, entries[i]? = some entry → ∃ o, outcomes[i]? = some o ∧
        o.Tells a c.deadline entry (c.service.serveCall (a.call entry)
          (c.service.after s ((entries.take i).map a.call))) := by
  induction entries generalizing s with
  | nil => exact ⟨rfl, fun i entry h => nomatch h⟩
  | cons entry rest ih =>
    obtain ⟨e, handler⟩ := entry
    obtain ⟨hlength, hrest⟩ := ih ((c.driveOne a e handler).run s).state
    simp only [driveAll, run_bind, run_pure]
    refine ⟨congrArg Nat.succ hlength, fun i entry h => ?_⟩
    cases i with
    | zero =>
      obtain rfl := Option.some.inj h
      exact ⟨_, rfl, tells_driveOne e handler s⟩
    | succ i =>
      obtain ⟨o, ho, htells⟩ := hrest i entry h
      rw [state_driveOne] at htells
      exact ⟨o, ho, htells⟩

end Client

/-! ## Tables of bindings -/

/-- The entry of the table that the action is to leave behind. -/
def HookAction.binding : HookAction → (handler : String) → Option String
  | hook, handler => some handler
  | unhook, _ => none

/-- The service keeps a table of the handlers that are bound to the numbers of event types:
a call is applied to it, or it is not, and then the answer is not a success. -/
structure Service.Keeps (service : Service σ) (table : σ → Int32 → Option String) : Prop where
  hook : ∀ r s, let served := service.serve .hook r s
    table served.state =
        Function.update (table s) (HookRequest.eventType r) (some (HookRequest.eventFunction r)) ∨
      table served.state = table s ∧ ∀ delay reply, served.answer ≠ some (delay, .ok reply)
  unhook : ∀ r s, let served := service.serve .unhook r s
    table served.state = Function.update (table s) (UnhookRequest.eventType r) none ∨
      table served.state = table s ∧ ∀ delay reply, served.answer ≠ some (delay, .ok reply)

namespace Service.Keeps

variable {c : Client σ} {table : σ → Int32 → Option String} (h : c.service.Keeps table)
  (a : HookAction)

include h

/-- What the call about an entry does to the table. -/
theorem serveCall (e : EventType) (handler : String) (s : σ) :
    let served := c.service.serveCall (a.call (e, handler)) s
    table served.state = Function.update (table s) e.value (a.binding handler) ∨
      table served.state = table s ∧ ∀ delay reply, served.answer ≠ some (delay, .ok reply) := by
  cases a with
  | hook => exact h.hook _ s
  | unhook => exact h.unhook _ s

/-- One entry that succeeds is as it should be. -/
theorem driveOne_of_isOk (e : EventType) (handler : String) (s : σ) :
    let ran := (c.driveOne a e handler).run s
    ran.result.error = none → table ran.state e.value = a.binding handler := by
  intro ran hok
  obtain ⟨reply, delay, -, hanswer⟩ :=
    (Client.tells_driveOne e handler s).error_eq_none_iff.1 hok
  rw [Client.state_driveOne]
  obtain happlied | ⟨-, hnot⟩ := h.serveCall a e handler s
  · rw [happlied, Function.update_self]
  · exact absurd hanswer (hnot delay reply)

/-- One entry leaves the rest of the table as it was. -/
theorem driveOne_of_ne {e : EventType} {v : Int32} (hne : e.value ≠ v) (handler : String)
    (s : σ) : table ((c.driveOne a e handler).run s).state v = table s v := by
  rw [Client.state_driveOne]
  obtain happlied | ⟨hkept, -⟩ := h.serveCall a e handler s
  · rw [happlied, Function.update_of_ne hne.symm]
  · rw [hkept]

theorem driveAll_of_ne {entries : List (EventType × String)} {v : Int32}
    (hne : ∀ entry ∈ entries, entry.1.value ≠ v) (s : σ) :
    table ((c.driveAll a entries).run s).state v = table s v := by
  induction entries generalizing s with
  | nil => rfl
  | cons entry rest ih =>
    obtain ⟨e, handler⟩ := entry
    rw [List.forall_mem_cons] at hne
    have hrest := ih hne.2 ((c.driveOne a e handler).run s).state
    rw [h.driveOne_of_ne a hne.1] at hrest
    exact hrest

/-- Where every type has one entry, those that succeed are as they should be, whatever
became of the others. -/
theorem driveAll_of_isOk {entries : List (EventType × String)}
    (hnodup : (entries.map Prod.fst).Nodup) (s : σ) :
    let ran := (c.driveAll a entries).run s
    ∀ o ∈ ran.result, o.error = none → table ran.state o.event.value = a.binding o.handler := by
  induction entries generalizing s with
  | nil => nofun
  | cons entry rest ih =>
    obtain ⟨e, handler⟩ := entry
    rw [List.map_cons, List.nodup_cons] at hnodup
    intro ran o ho hok
    obtain rfl | ho := List.mem_cons.1 ho
    · -- The other entries are about other types, and leave this one as it is.
      have hrest : ∀ entry ∈ rest, entry.1.value ≠ e.value := by
        intro entry hentry heq
        have hmem : entry.1 ∈ rest.map Prod.fst := List.mem_map_of_mem hentry
        exact hnodup.1 (EventType.value_injective heq ▸ hmem)
      rw [Client.result_driveOne]
      exact (h.driveAll_of_ne a hrest _).trans (h.driveOne_of_isOk a e handler s hok)
    · exact ih hnodup.2 _ o ho hok

end Service.Keeps

/-- A service with a table of bindings that answers from a list, and applies a call unless
the answer is a failure. -/
def Service.bindings : Service ((Int32 → Option String) × List ScriptedReply) where
  serve m request := fun (table, replies) =>
    let served := Service.scripted.serve m request replies
    let applied := match m, request with
      | .hook, r =>
        Function.update table (HookRequest.eventType r) (some (HookRequest.eventFunction r))
      | .unhook, r => Function.update table (UnhookRequest.eventType r) none
      | .event, _ => table
    ⟨served.answer, (if (replies.headD {}).failure.isSome then table else applied, served.state),
      served.log⟩

theorem Service.keeps_bindings : Service.bindings.Keeps Prod.fst := by
  have hrefused : ∀ (m : Method) (request : m.Request) (replies : List ScriptedReply),
      (replies.headD {}).failure.isSome → ∀ delay reply,
        (scripted.serve m request replies).answer ≠ some (delay, .ok reply) := by
    intro m request replies hfailure
    obtain ⟨f, hf⟩ := Option.isSome_iff_exists.1 hfailure
    simp only [scripted, hf]
    cases (replies.headD {}).delay <;> simp
  constructor
  · rintro r ⟨table, replies⟩
    by_cases hfailure : (replies.headD {}).failure.isSome
    · exact .inr ⟨if_pos hfailure, hrefused .hook r replies hfailure⟩
    · exact .inl (if_neg hfailure)
  · rintro r ⟨table, replies⟩
    by_cases hfailure : (replies.headD {}).failure.isSome
    · exact .inr ⟨if_pos hfailure, hrefused .unhook r replies hfailure⟩
    · exact .inl (if_neg hfailure)

/-! ## The registry -/

theorem lookup_registry (e : EventType) : registry.lookup e = some e.handler := by
  cases e <;> decide +kernel

namespace Client

open Session

variable {c : Client σ} {a : HookAction} {s : σ}

/-- All types succeed just if no outcome has an error. -/
theorem result_drive_eq_true_iff :
    ((c.drive a).run s).result = true ↔
      ∀ o ∈ ((c.driveReport a).run s).result, o.error = none := by
  simp [drive, HookOutcome.isOk]

/-- Where all types succeed, each is as it should be. -/
theorem table_drive {table : σ → Int32 → Option String} (h : c.service.Keeps table)
    (hok : ((c.drive a).run s).result = true) (e : EventType) :
    table ((c.drive a).run s).state e.value = a.binding e.handler := by
  have hnodup : (registry.map Prod.fst).Nodup := by decide
  have hentry : (e, e.handler) ∈ registry := List.mem_map_of_mem e.mem_all
  obtain ⟨i, hi⟩ := List.mem_iff_getElem?.1 hentry
  obtain ⟨o, ho, htells⟩ := (tells_driveAll registry s).2 i _ hi
  have hmem : o ∈ ((c.driveReport a).run s).result := List.mem_of_getElem? ho
  have htable := h.driveAll_of_isOk a hnodup s o hmem (result_drive_eq_true_iff.1 hok o hmem)
  rwa [htells.event, htells.handler] at htable

end Client

/-- **Binding all handlers**: whatever the service does, every entry of the registry is tried
once, in order, and nothing else is; there is one outcome for each entry, which tells how the
call about it was served after the calls before it; and all succeed just if no outcome has an
error.  So a service that keeps a table of bindings has the handler of every type of event
in it when binding all has succeeded, and none of them when unbinding all has; the rest of
the table is never touched. -/
theorem every_handler_is_tried (c : Client σ) (s : σ) :
    (∀ a,
      let report := (c.driveReport a).run s
      Act.calls report.acts = registry.map a.call ∧
        report.state = c.service.after s (registry.map a.call) ∧
        report.result.length = registry.length ∧
        (∀ (i : Nat) entry, registry[i]? = some entry → ∃ o, report.result[i]? = some o ∧
          o.Tells a c.deadline entry (c.service.serveCall (a.call entry)
            (c.service.after s ((registry.take i).map a.call)))) ∧
        Act.calls ((c.drive a).run s).acts = registry.map a.call ∧
        (((c.drive a).run s).result = true ↔ ∀ o ∈ report.result, o.error = none)) ∧
    ∀ table, c.service.Keeps table →
      (((c.drive .hook).run s).result = true →
        ∀ e : EventType, ∃ handler, registry.lookup e = some handler ∧
          table ((c.drive .hook).run s).state e.value = some handler) ∧
      (((c.drive .unhook).run s).result = true →
        ∀ e : EventType, table ((c.drive .unhook).run s).state e.value = none) ∧
      ∀ a v, (∀ e : EventType, e.value ≠ v) →
        table ((c.drive a).run s).state v = table s v := by
  constructor
  · intro a report
    have hcalls : Act.calls report.acts = registry.map a.call := Client.calls_driveAll registry s
    obtain ⟨hlength, htells⟩ := Client.tells_driveAll (c := c) (a := a) registry s
    exact ⟨hcalls, Client.state_driveAll registry s, hlength, htells,
      by simpa [Client.drive] using hcalls, Client.result_drive_eq_true_iff⟩
  · intro table h
    refine ⟨fun hok e => ?_, fun hok e => ?_, fun a v hother => ?_⟩
    · exact ⟨e.handler, lookup_registry e, Client.table_drive h hok e⟩
    · exact Client.table_drive h hok e
    · exact h.driveAll_of_ne a (fun entry _ => hother entry.1) s

/-- A first attempt is answered too late once and refused once; after a second one all
handlers are bound, over what was bound before. -/
theorem every_handler_is_tried_again :
    let client : Client ((Int32 → Option String) × List ScriptedReply) := ⟨.bindings, 100⟩
    let start := ((fun _ => some "Other" : Int32 → Option String),
      ([{}, { delay := some 101 }, {}, { failure := some (.remote 13 "busy") }] :
        List ScriptedReply))
    let first := (client.drive .hook).run start
    let second := (client.drive .hook).run first.state
    let third := (client.drive .unhook).run second.state
    ((client.driveReport .hook).run start).result.map HookOutcome.error =
        [none, some "timeout: hook exceeded 100ms", none, some "faz error (code 13): busy", none] ∧
      first.result = false ∧
      (∀ e : EventType, ∃ handler, registry.lookup e = some handler ∧
        second.state.1 e.value = some handler) ∧
      ∀ e : EventType, third.state.1 e.value = none := by
  intro client start first second third
  have hsecond : second.result = true := by decide +kernel
  have hthird : third.result = true := by decide +kernel
  obtain ⟨-, htable⟩ := every_handler_is_tried client first.state
  obtain ⟨-, htable'⟩ := every_handler_is_tried client second.state
  have hbound := (htable Prod.fst Service.keeps_bindings).1
  have hunbound := (htable' Prod.fst Service.keeps_bindings).2.1
  rw [show (client.drive .hook).run first.state = second from rfl] at hbound
  rw [show (client.drive .unhook).run second.state = third from rfl] at hunbound
  exact ⟨by decide +kernel, by decide +kernel, hbound hsecond, hunbound hthird⟩

end FazClient
