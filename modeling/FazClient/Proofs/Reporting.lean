import FazClient.Command
import FazClient.Proofs.Bindings
import FazClient.Proofs.Operations
import FazClient.Service.Scripted

/-!
# FazClient.Proofs.Reporting

The commands that bind and unbind all handlers.  They try every entry of the registry, then
show one report on all of them, and only then fail.

* `HookOutcome.Tells.row` — what a row of the report tells;
* `HookReport.failures_eq_zero_iff` — a report without failures is that of a success;
* `Action.run_execute_hooks` — what a command does, from the calls to the last byte;
* `report_comes_before_failure` — what this means for the output and the result.
-/

namespace FazClient

/-! ## Rows -/

/-- The row of an entry tells what the entry is and how the call about it was served. -/
structure HookEntry.Tells (row : HookEntry) (a : HookAction) (deadline : Nat)
    (entry : EventType × String) (served : Served σ α) : Prop where
  eventType : row.eventType = entry.1.value
  event : row.event = entry.1.name
  handler : row.handler = entry.2
  ok_iff : row.ok = true ↔ ∃ reply, served.InTime deadline (.ok reply)
  error_eq_none_iff : row.error = none ↔ row.ok = true
  error_of_failure : ∀ f, served.InTime deadline (.error f) → row.error = some f.message
  error_of_late : (∀ answer, ¬ served.InTime deadline answer) →
    row.error = some s!"timeout: {a.verb} exceeded {deadline}ms"

theorem HookOutcome.isOk_iff (o : HookOutcome) : o.isOk = true ↔ o.error = none :=
  Option.isNone_iff_eq_none

/-- The row of an outcome tells what the outcome tells. -/
theorem HookOutcome.Tells.row {o : HookOutcome} {a : HookAction} {deadline : Nat}
    {entry : EventType × String} {served : Served σ α} (h : o.Tells a deadline entry served) :
    (HookEntry.of o).Tells a deadline entry served where
  eventType := congrArg EventType.value h.event
  event := congrArg EventType.name h.event
  handler := h.handler
  ok_iff := o.isOk_iff.trans h.error_eq_none_iff
  error_eq_none_iff := o.isOk_iff.symm
  error_of_failure := h.error_of_failure
  error_of_late := h.error_of_late

namespace HookReport

/-- What the command says that shows this report, where the output ended like this. -/
def verdict (r : HookReport) : Except Failure Unit → Except Failure Unit
  | .error f => .error f
  | .ok () =>
    if r.failures = 0 then .ok ()
    else .error (.command s!"failed to {r.action} {r.failures} of {r.entries.length} handlers")

theorem verdict_eq_ok_iff (r : HookReport) : r.verdict (.ok ()) = .ok () ↔ r.failures = 0 := by
  rw [verdict]
  split <;> simp_all

theorem failures_eq_zero_iff {action : String} {outcomes : List HookOutcome} :
    (of action outcomes).failures = 0 ↔ ∀ o ∈ outcomes, o.error = none := by
  simp [of, failures, List.countP_eq_zero, HookEntry.of, HookOutcome.isOk_iff]

end HookReport

/-! ## Commands -/

namespace Client

open Session

variable {c : Client σ} {a : HookAction}

theorem driveOne_extends (e : EventType) (handler : String) :
    (c.driveOne a e handler).Extends
      (c.service.callWithin c.deadline a.verb a.method (a.request e handler)) := by
  refine extends_bind (fun answer => ?_) _
  cases answer with
  | error f => exact onlyLogs_log_pure _ _ _ _
  | ok reply => exact onlyLogs_log_pure _ _ _ _

/-- The calls themselves write nothing. -/
theorem output_driveAll (entries : List (EventType × String)) (s : σ) :
    Act.output ((c.driveAll a entries).run s).acts = [] := by
  induction entries generalizing s with
  | nil => rfl
  | cons entry rest ih =>
    obtain ⟨e, handler⟩ := entry
    have hone : Act.output ((c.driveOne a e handler).run s).acts = [] :=
      ((driveOne_extends e handler).output s).trans (c.service.output_callWithin _ _ _ _ s)
    simp only [driveAll, run_bind, run_pure, Act.output_append, hone, ih]
    rfl

/-- The rows tell of the entries of the registry, in order. -/
theorem tells_rows (c : Client σ) (a : HookAction) (s : σ) :
    let rows := (HookReport.of a.verb ((c.driveReport a).run s).result).entries
    rows.length = registry.length ∧
      ∀ (i : Nat) entry, registry[i]? = some entry → ∃ row, rows[i]? = some row ∧
        row.Tells a c.deadline entry (c.service.serveCall (a.call entry)
          (c.service.after s ((registry.take i).map a.call))) := by
  obtain ⟨hlength, htells⟩ := tells_driveAll (c := c) (a := a) registry s
  refine ⟨(List.length_map _).trans hlength, fun i entry hentry => ?_⟩
  obtain ⟨o, ho, h⟩ := htells i entry hentry
  exact ⟨.of o, (List.getElem?_map ..).trans (congrArg (Option.map _) ho), h.row⟩

end Client

section

variable [Writer ω] (c : Client σ) (a : HookAction) (f : Format) (out : ω)

theorem driveHandlers_eq :
    driveHandlers c a f out = (do
      Session.log .info "Driving all Caw handlers on the Faz layer" [("action", a.verb)]
      let report := HookReport.of a.verb (← c.driveReport a)
      let (result, out) ← present f (.hooks report) out
      return (report.verdict result, out)) := by
  rw [driveHandlers]
  refine bind_congr fun _ => bind_congr fun outcomes => bind_congr fun (result, out) => ?_
  cases result with
  | error e => rfl
  | ok =>
    simp only [HookReport.verdict]
    split <;> rfl

/-- A command about the handlers makes its calls, then writes, and then says how it went. -/
theorem Action.run_execute_hooks (s : σ) :
    let driven := (c.driveReport a).run s
    let report := HookReport.of a.verb driven.result
    let written := f.print (.hooks report) out
    ((Action.hooks a).execute c f out).run s =
      ⟨(report.verdict written.result, written.state), driven.state,
        .logged ⟨.info, "Driving all Caw handlers on the Faz layer", [("action", a.verb)]⟩
          :: driven.acts ++ [.wrote written.accepted]⟩ := by
  rw [execute, driveHandlers_eq]
  rfl

theorem Action.calls_execute_hooks (s : σ) :
    Act.calls (((Action.hooks a).execute c f out).run s).acts = registry.map a.call := by
  have hcalls : Act.calls ((c.driveReport a).run s).acts = registry.map a.call :=
    Client.calls_driveAll registry s
  rw [run_execute_hooks, Act.calls_concat_wrote, Act.calls_cons_logged, hcalls]

end

/-- **Reports on the handlers**: whatever the service does, a command about the handlers tries
every entry of the registry once, in order, and writes nothing meanwhile; then it offers the writer
one report, with one row for each entry, which tells what the entry is and how the call about it
was served after the calls before it.  If the writer takes the whole report, the command succeeds
just if the same calls would be reported as a success, and if not, its failure counts the rows
that failed; if the writer stops for a reason, the failure is made of that, whatever the calls
did. -/
theorem report_comes_before_failure [Writer ω] (c : Client σ) (a : HookAction) (f : Format)
    (out : ω) (s : σ) :
    let ran := ((Action.hooks a).execute c f out).run s
    let succeeds := ((c.drive a).run s).result
    ∃ rows before taken reason?,
      let full := Utf8.encode (f.render (.hooks ⟨a.verb, rows⟩))
      ran.acts = before ++ [.wrote taken] ∧
        Act.calls before = registry.map a.call ∧ Act.output before = [] ∧
        ran.state = c.service.after s (registry.map a.call) ∧
        rows.length = registry.length ∧
        (∀ (i : Nat) entry, registry[i]? = some entry → ∃ row, rows[i]? = some row ∧
          row.Tells a c.deadline entry (c.service.serveCall (a.call entry)
            (c.service.after s ((registry.take i).map a.call)))) ∧
        Writer.Takes out full taken reason? ran.result.2 ∧
        taken <+: full ∧ (reason? = none ↔ taken = full) ∧
        (reason? = none →
          (ran.result.1 = .ok () ↔ succeeds = true) ∧
          (succeeds = false → ran.result.1 = .error (.command
            s!"failed to {a.verb} {rows.countP fun row => !row.ok} of {rows.length} handlers"))) ∧
        ∀ reason, reason? = some reason →
          ran.result.1 = .error (f.failure full.length taken.length reason) := by
  intro ran succeeds
  have hran := Action.run_execute_hooks c a f out s
  have hsucceeds : (HookReport.of a.verb ((c.driveReport a).run s).result).failures = 0 ↔
      succeeds = true :=
    HookReport.failures_eq_zero_iff.trans Client.result_drive_eq_true_iff.symm
  have hcalls : Act.calls ((c.driveReport a).run s).acts = registry.map a.call :=
    Client.calls_driveAll registry s
  have hquiet : Act.output ((c.driveReport a).run s).acts = [] := Client.output_driveAll registry s
  have hstate : ((c.driveReport a).run s).state = c.service.after s (registry.map a.call) :=
    Client.state_driveAll registry s
  have hrows := Client.tells_rows c a s
  -- From here on only the rows of the report matter.
  simp only at hran hrows
  generalize hreport : HookReport.of a.verb ((c.driveReport a).run s).result = report
    at hran hsucceeds hrows
  obtain ⟨action, rows⟩ := report
  obtain rfl : a.verb = action := congrArg HookReport.action hreport
  obtain ⟨hlength, htells⟩ := hrows
  have hresult := congrArg (fun ran => ran.result.1) hran
  obtain ⟨reason?, htakes, hok, herror⟩ :=
    (f.reports_print (.hooks ⟨a.verb, rows⟩) out).exists_takes
  have hwriter : ran.result.2 = (f.print (.hooks ⟨a.verb, rows⟩) out).state :=
    congrArg (fun ran => ran.result.2) hran
  rw [← hwriter] at htakes
  refine ⟨rows, _, _, reason?, congrArg Ran.acts hran, ?_, ?_,
    (congrArg Ran.state hran).trans hstate, hlength, htells, htakes, htakes.front,
    htakes.eq_none_iff, fun hall => ?_, fun reason hreason => ?_⟩
  · exact (Act.calls_cons_logged _ _).trans hcalls
  · exact (Act.output_append [_] _).trans hquiet
  · simp only [hok hall] at hresult
    rw [hresult, HookReport.verdict_eq_ok_iff]
    refine ⟨hsucceeds, fun hfails => if_neg fun hnone => ?_⟩
    rw [hsucceeds.1 hnone] at hfails
    contradiction
  · simp only [herror reason hreason] at hresult
    exact hresult

/-- One call is refused and one is answered too late; the report has all rows, and its failures
are counted.  A writer with room for seven bytes gets the first of the title, and its reason is
what is said instead. -/
theorem report_comes_before_failure_busy :
    let client : Client (List ScriptedReply) := ⟨.scripted, 100⟩
    let replies : List ScriptedReply :=
      [{}, { failure := some (.remote 14 "busy") }, {}, { delay := some 101 }]
    let ran := ((Action.hooks .unhook).execute client .json Sink.unlimited).run replies
    let short := ((Action.hooks .unhook).execute client .table (Sink.limited 7)).run replies
    let text := match ran.result.1 with
      | .error f => f.message
      | .ok () => ""
    text = "command error: failed to unhook 2 of 5 handlers" ∧
      (∃ rows : List HookEntry, rows.length = 5 ∧
        Act.output ran.acts = Utf8.encode (Format.json.render (.hooks ⟨"unhook", rows⟩)) ∧
        ran.result.1 = .error (.command
          s!"failed to unhook {rows.countP fun row => !row.ok} of {rows.length} handlers")) ∧
      Act.output short.acts = Utf8.encode "TYPE   " ∧
      ∃ (rows : List HookEntry) (reason : String), rows.length = 5 ∧
        Writer.Takes (Sink.limited 7) (Utf8.encode (Format.table.render (.hooks ⟨"unhook", rows⟩)))
          (Act.output short.acts) (some reason) short.result.2 ∧
        short.result.1 = .error (.io reason) := by
  intro client replies ran short text
  have hfails : ((client.drive .unhook).run replies).result = false := by decide +kernel
  have hseven : Act.output short.acts = Utf8.encode "TYPE   " := by decide +kernel
  refine ⟨by decide +kernel, ?_, hseven, ?_⟩
  · obtain ⟨rows, before, taken, reason?, hacts, -, hquiet, -, hlength, -, htakes, -, hall,
      hdone, -⟩ := report_comes_before_failure client .unhook .json Sink.unlimited replies
    obtain ⟨rfl, -⟩ := Sink.takes_unlimited htakes rfl
    obtain rfl := hall.1 rfl
    refine ⟨rows, hlength, ?_, (hdone rfl).2 hfails⟩
    exact (congrArg Act.output hacts).trans (Act.output_concat_wrote hquiet _)
  · obtain ⟨rows, before, taken, reason?, hacts, -, hquiet, -, hlength, -, htakes, -, hall, -,
      hstops⟩ := report_comes_before_failure client .unhook .table (Sink.limited 7) replies
    have htaken : Act.output short.acts = taken :=
      (congrArg Act.output hacts).trans (Act.output_concat_wrote hquiet _)
    rw [htaken]
    cases reason? with
    | none =>
      -- All would be more than seven bytes, for the title alone is.
      have hlong : 7 < taken.length := by
        have htitle : 7 < (Utf8.encode (String.join
            (hookRow "TYPE" "EVENT" "HANDLER" "STATUS"))).length := by decide +kernel
        rw [hall.1 rfl, Format.render, View.table, HookReport.table, String.join_append,
          Utf8.encode_append, List.length_append]
        omega
      rw [← htaken, hseven] at hlong
      exact absurd hlong (by decide +kernel)
    | some reason => exact ⟨rows, reason, hlength, htakes, hstops reason rfl⟩

end FazClient
