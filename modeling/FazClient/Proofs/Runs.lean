import FazClient.Program
import FazClient.Proofs.CommandLines
import FazClient.Service.Scripted

/-!
# FazClient.Proofs.Runs

What a run does, from the command line to its end.  It tries to connect at most once, and a
connection that was made is closed once, after everything else, whatever came of the action.

* `Act.Inner`, `Session.Inside` — computations that neither make nor close a connection, with one
  rule each for `pure`, `log`, calls and `bind`;
* `Action.inside_execute` — actions are such computations;
* `Outside.Meets` — how an attempt to connect is met, and what connecting makes of it
  (`Outside.run_connect_of_error`, `Outside.run_connect_of_meets_ok`);
* `Program.run_conduct_of_connect_eq_ok` — a session from its beginning to its end;
* `one_session_per_run` — what this means for a whole run.
-/

namespace FazClient

open CommandLine

/-! ## Acts within a session -/

namespace Act

/-- Neither the making of a connection nor its end. -/
def Inner : Act → Prop
  | dialed _ | closed _ => False
  | called _ | logged _ | wrote _ => True

/-- The address that was tried, if it is an attempt. -/
def attempt? : Act → Option String
  | dialed url => some url
  | _ => none

/-- How a connection was closed, if one was. -/
def closing? : Act → Option (Except Failure Unit)
  | closed result => some result
  | _ => none

/-- The addresses that were tried, in order. -/
def attempts (acts : List Act) : List String := acts.filterMap attempt?

/-- How connections were closed, in order. -/
def closings (acts : List Act) : List (Except Failure Unit) := acts.filterMap closing?

/-- The acts of an attempt to connect. -/
def tried (url : String) : List Act := [logged (Connection.connecting url), dialed url]

/-- The acts of a session from its beginning to its end, with some log around those within. -/
def session (url : String) (before : List LogEntry) (acts : List Act)
    (result : Except Failure Unit) (after : List LogEntry) : List Act :=
  tried url ++ before.map logged ++ acts ++ closed result :: after.map logged

variable {url : String} {before after : List LogEntry} {acts : List Act}
  {result : Except Failure Unit}

/-- What is not found within a session is found at its beginning and at its end only. -/
theorem filterMap_session {β : Type} {f : Act → Option β} (hf : ∀ act, act.Inner → f act = none)
    (h : ∀ act ∈ acts, act.Inner) :
    (session url before acts result after).filterMap f =
      (f (dialed url)).toList ++ (f (closed result)).toList := by
  have hacts : acts.filterMap f = [] :=
    List.filterMap_eq_nil_iff.2 fun act hact => hf act (h act hact)
  have hentry (entry : LogEntry) : f (logged entry) = none := hf (logged entry) trivial
  have hlog (log : List LogEntry) : (log.map logged).filterMap f = [] := by
    rw [List.filterMap_eq_nil_iff, List.forall_mem_map]
    exact fun entry _ => hentry entry
  simp only [session, tried, List.filterMap_append, List.filterMap_cons, hacts, hlog, hentry]
  cases f (dialed url) <;> cases f (closed result) <;> rfl

theorem attempts_session (h : ∀ act ∈ acts, act.Inner) :
    attempts (session url before acts result after) = [url] := by
  refine filterMap_session (fun act hact => ?_) h
  cases act <;> first | rfl | exact hact.elim

theorem closings_session (h : ∀ act ∈ acts, act.Inner) :
    closings (session url before acts result after) = [result] := by
  refine filterMap_session (fun act hact => ?_) h
  cases act <;> first | rfl | exact hact.elim

theorem output_session : output (session url before acts result after) = output acts := by
  have hbefore : output (tried url ++ before.map logged) = [] := output_map_logged before
  have hafter : output (closed result :: after.map logged) = [] := output_map_logged after
  rw [session, output_append, output_append, hbefore, hafter, List.nil_append, List.append_nil]

end Act

/-- A computation within a session. -/
def Session.Inside (session : Session σ α) : Prop :=
  ∀ s, ∀ act ∈ (session.run s).acts, act.Inner

namespace Session

theorem inside_pure (a : α) : Inside (pure a : Session σ α) :=
  fun _ _ hact => nomatch hact

theorem inside_log (l : Level) (m : String) (fs : List (String × String)) :
    Inside (log l m fs : Session σ Unit) := by
  intro s act hact
  rw [List.mem_singleton.1 hact]
  trivial

theorem Inside.bind {session : Session σ α} {f : α → Session σ β} (hsession : Inside session)
    (hf : ∀ a, Inside (f a)) : Inside (session >>= f) := by
  intro s act hact
  rw [run_bind, List.mem_append] at hact
  exact hact.elim (hsession s act) (hf _ _ act)

theorem inside_callWithin (service : Service σ) (deadline : Nat) (what : String) (m : Method)
    (request : m.Request) : Inside (service.callWithin deadline what m request) := by
  intro s act hact
  rw [Service.run_callWithin, List.mem_cons, List.mem_map] at hact
  obtain rfl | ⟨entry, -, rfl⟩ := hact
  · trivial
  · trivial

end Session

/-! ## Actions -/

namespace Client

open Session

variable (c : Client σ)

theorem inside_driveOne (a : HookAction) (e : EventType) (handler : String) :
    Inside (c.driveOne a e handler) := by
  refine (inside_callWithin _ _ _ _ _).bind fun answer => ?_
  cases answer <;> exact (inside_log _ _ _).bind fun _ => inside_pure _

theorem inside_driveAll (a : HookAction) (entries : List (EventType × String)) :
    Inside (c.driveAll a entries) := by
  induction entries with
  | nil => exact inside_pure _
  | cons entry rest ih =>
    refine (c.inside_driveOne a _ _).bind fun _ => ?_
    exact ih.bind fun _ => inside_pure _

theorem inside_invoke (e : EventType) (request : e.Request) : Inside (c.invoke e request) := by
  rw [invoke]
  split
  · exact inside_pure _
  · refine (inside_log _ _ _).bind fun _ => (inside_callWithin _ _ _ _ _).bind fun answer => ?_
    split
    · exact inside_pure _
    · exact (inside_log _ _ _).bind fun _ => inside_pure _
    · split <;> exact inside_pure _

theorem inside_acknowledge (e : EventType) (request : e.Request) :
    Inside (c.acknowledge e request) := by
  refine (c.inside_invoke e request).bind fun answer => ?_
  cases answer with
  | ok => exact inside_pure _
  | error => exact (inside_log _ _ _).bind fun _ => inside_pure _

theorem inside_fetch (e : EventType) (request : e.Request) : Inside (c.fetch e request) := by
  refine (c.inside_invoke e request).bind fun answer => ?_
  split
  · exact inside_pure _
  · exact (inside_log _ _ _).bind fun _ => inside_pure _
  · exact (inside_log _ _ _).bind fun _ => inside_pure _

theorem inside_registerUser (username : String) : Inside (c.registerUser username) := by
  refine (c.inside_acknowledge _ _).bind fun ok => ?_
  cases ok with
  | false => exact inside_pure _
  | true => exact (inside_log _ _ _).bind fun _ => inside_pure _

theorem inside_follow (username toFollow : String) : Inside (c.follow username toFollow) := by
  refine (c.inside_acknowledge _ _).bind fun ok => ?_
  cases ok with
  | false => exact inside_pure _
  | true => exact (inside_log _ _ _).bind fun _ => inside_pure _

theorem inside_post (username text parent : String) : Inside (c.post username text parent) := by
  refine (c.inside_fetch _ _).bind fun reply => ?_
  cases reply with
  | none => exact inside_pure _
  | some reply =>
    dsimp only
    split
    · exact (inside_log _ _ _).bind fun _ => inside_pure _
    · exact inside_pure _

theorem inside_read (cawId : String) : Inside (c.read cawId) :=
  (c.inside_fetch _ _).bind fun _ => inside_pure _

end Client

namespace Action

open Session

section

variable [Writer ω]

theorem inside_present (f : Format) (v : View) (out : ω) :
    Inside (present f v out : Session σ (Except Failure Unit × ω)) := by
  intro s act hact
  rw [List.mem_singleton.1 hact]
  trivial

theorem inside_driveHandlers (c : Client σ) (a : HookAction) (f : Format) (out : ω) :
    Inside (driveHandlers c a f out) := by
  refine (inside_log _ _ _).bind fun _ => (c.inside_driveAll a registry).bind fun outcomes => ?_
  refine (inside_present _ _ _).bind fun shown => ?_
  obtain ⟨result, out⟩ := shown
  cases result with
  | error => exact inside_pure _
  | ok =>
    dsimp only
    split <;> exact inside_pure _

/-- An action neither makes a connection nor closes one. -/
theorem inside_execute (c : Client σ) (f : Format) (out : ω) (action : Action) :
    Inside (action.execute c f out) := by
  cases action with
  | hooks a => exact inside_driveHandlers c a f out
  | register username =>
    refine (c.inside_registerUser _).bind fun ok => ?_
    cases ok with
    | false => exact inside_pure _
    | true => exact inside_present _ _ _
  | follow user toFollow =>
    refine (c.inside_follow _ _).bind fun ok => ?_
    cases ok with
    | false => exact inside_pure _
    | true => exact inside_present _ _ _
  | profile user =>
    refine (c.inside_fetch _ _).bind fun reply => ?_
    cases reply with
    | none => exact inside_pure _
    | some => exact inside_present _ _ _
  | post user text replyTo =>
    refine (c.inside_post _ _ _).bind fun caw => ?_
    cases caw with
    | none => exact inside_pure _
    | some => exact inside_present _ _ _
  | read cawId =>
    refine (c.inside_read _).bind fun caws => ?_
    cases caws with
    | none => exact inside_pure _
    | some => exact inside_present _ _ _

end

end Action

/-! ## Connecting -/

namespace Outside

/-- An attempt to connect to the address is met before or at the timeout, and with this outcome. -/
def Meets (w : Outside σ) (url : String) (timeout : Nat) (s : σ) (outcome : Except String Unit) :
    Prop :=
  ∃ delay ≤ timeout, (w.dial url s).1 = some (delay, outcome)

variable {w : Outside σ} {url : String} {timeout : Nat} {s : σ}

/-- An attempt is met with a failure in time, or not in time, or it succeeds. -/
theorem meets_cases (w : Outside σ) (url : String) (timeout : Nat) (s : σ) :
    (∃ text, w.Meets url timeout s (.error text)) ∨ (∀ outcome, ¬ w.Meets url timeout s outcome) ∨
      w.Meets url timeout s (.ok ()) := by
  by_cases hmet : ∃ outcome, w.Meets url timeout s outcome
  · obtain ⟨text | _, h⟩ := hmet
    · exact .inl ⟨text, h⟩
    · exact .inr (.inr h)
  · exact .inr (.inl (not_exists.1 hmet))

/-- An attempt that is met in time goes as it is met. -/
theorem run_attempt_of_meets {outcome : Except String Unit} (h : w.Meets url timeout s outcome) :
    (w.attempt url timeout).run s =
      ⟨outcome.mapError .connection, (w.dial url s).2, [.dialed url]⟩ := by
  obtain ⟨delay, hdelay, hmet⟩ := h
  rw [Session.run, attempt]
  generalize w.dial url s = dialed at hmet ⊢
  obtain ⟨met, later⟩ := dialed
  obtain rfl : met = some (delay, outcome) := hmet
  simp [Option.filter, hdelay, attempted]

/-- An attempt that is not met in time has timed out. -/
theorem run_attempt_of_late (h : ∀ outcome, ¬ w.Meets url timeout s outcome) :
    (w.attempt url timeout).run s =
      ⟨.error (.timeout "connection timed out"), (w.dial url s).2, [.dialed url]⟩ := by
  have hlate : ∀ delay outcome, (w.dial url s).1 = some (delay, outcome) → ¬ delay ≤ timeout :=
    fun delay outcome hmet hdelay => h outcome ⟨delay, hdelay, hmet⟩
  rw [Session.run, attempt]
  generalize w.dial url s = dialed at hlate ⊢
  obtain ⟨_ | ⟨delay, outcome⟩, later⟩ := dialed
  · rfl
  · simp [Option.filter, hlate delay outcome rfl, attempted]

section

variable (hknown : Config.knownScheme url = true)

include hknown

/-- Where the scheme is known, connecting is one attempt with some log around it. -/
theorem run_connect :
    (w.connect url timeout).run s =
      let tried := (w.attempt url timeout).run s
      ⟨tried.result, tried.state, .logged (Connection.connecting url) :: tried.acts ++
        match tried.result with
        | .error _ => []
        | .ok () => [.logged Connection.established]⟩ := by
  have hcheck : ¬ (!Config.knownScheme url) = true := by simp [hknown]
  rw [connect, if_neg hcheck]
  simp only [Session.run_bind, Session.run_record]
  cases ((w.attempt url timeout).run s).result <;> rfl

/-- Connecting fails as the attempt does. -/
theorem run_connect_of_error {f : Failure} {later : σ}
    (h : (w.attempt url timeout).run s = ⟨.error f, later, [.dialed url]⟩) :
    (w.connect url timeout).run s = ⟨.error f, later, Act.tried url⟩ := by
  rw [run_connect hknown, h]
  rfl

theorem run_connect_of_meets_ok (h : w.Meets url timeout s (.ok ())) :
    (w.connect url timeout).run s =
      ⟨.ok (), (w.dial url s).2, Act.tried url ++ [.logged Connection.established]⟩ := by
  rw [run_connect hknown, run_attempt_of_meets h]
  rfl

end

end Outside

/-! ## Sessions -/

namespace Program

open Session

/-- Hanging up closes the connection, and logs something at most. -/
theorem run_hangUp (w : Outside σ) (s : σ) :
    ∃ log : List LogEntry, (hangUp w).run s = ⟨(), (w.leave s).2,
      .closed ((w.leave s).1.mapError .connection) :: log.map .logged⟩ := by
  have hclose : w.close.run s = ⟨(w.leave s).1.mapError .connection, (w.leave s).2,
      [.closed ((w.leave s).1.mapError .connection)]⟩ := rfl
  rw [hangUp, run_bind, hclose]
  cases (w.leave s).1 with
  | ok => exact ⟨[], rfl⟩
  | error text => exact ⟨[_], rfl⟩

section

variable [Writer ω] {w : Outside σ} {config : Config} {s later : σ} (action : Action)
  (format : Format) (out : ω)

theorem run_conduct_of_connect_eq_error {f : Failure} {acts : List Act}
    (h : (w.connect config.fazUrl config.connectTimeout).run s = ⟨.error f, later, acts⟩) :
    (conduct w config action format out).run s = ⟨(.error f, out), later, acts⟩ := by
  rw [conduct, run_bind, h]
  simp only [run_pure, List.append_nil]

/-- Over a connection the action is carried out, and then the connection is closed. -/
theorem run_conduct_of_connect_eq_ok
    (h : (w.connect config.fazUrl config.connectTimeout).run s =
      ⟨.ok (), later, Act.tried config.fazUrl ++ [.logged Connection.established]⟩) :
    let done := (action.execute ⟨w.service, config.callDeadline⟩ format out).run later
    let left := w.leave done.state
    ∃ before after, (conduct w config action format out).run s = ⟨done.result, left.2,
      Act.session config.fazUrl before done.acts (left.1.mapError .connection) after⟩ := by
  intro done left
  obtain ⟨after, hhangUp⟩ := run_hangUp w done.state
  refine ⟨[Connection.established, ⟨.debug, "Session opened", [("url", config.fazUrl)]⟩], after, ?_⟩
  rw [conduct, run_bind, h]
  simp only [run_bind, run_log, run_pure, List.append_nil]
  rw [hhangUp]
  rfl

end

/-! ## Whole runs -/

section

variable [Writer ω] {w : Outside σ} {parsed : Parsed} {out : ω} {s : σ} {config : Config}

theorem carryOut_of_config_eq_error {f : Failure} (h : parsed.config = .error f) :
    carryOut w parsed out = pure (.error f, out) := by
  rw [carryOut, h]

theorem carryOut_of_plan_eq_error {f : Failure} (hconfig : parsed.config = .ok config)
    (hplan : Action.plan parsed.user parsed.command = .error f) :
    carryOut w parsed out = pure (.error f, out) := by
  simp only [carryOut, hconfig, hplan]

theorem carryOut_of_checked {action : Action} (hconfig : parsed.config = .ok config)
    (hplan : Action.plan parsed.user parsed.command = .ok action) :
    carryOut w parsed out = conduct w config action parsed.format out := by
  simp only [carryOut, hconfig, hplan]

theorem run_runIn {env : Environment} {args : List String} (h : parse env args = .ok parsed) :
    (runIn w env args out).run s =
      let ran := (carryOut w parsed out).run s
      ⟨ended ran.result.1 (Act.output ran.acts), ran.state, ran.acts⟩ := by
  simp only [Session.run, runIn, h]

end

theorem exit_ended_eq_zero_iff {result : Except Failure Unit} {stdout : List UInt8} :
    (ended result stdout).exit = 0 ↔ result = .ok () := by
  cases result <;> simp [ended]

theorem stdout_ended (result : Except Failure Unit) (stdout : List UInt8) :
    (ended result stdout).stdout = stdout := by
  cases result <;> rfl

end Program

/-- **One session for each run**: whatever is outside, and whatever becomes of the output, a
command line that was understood fails at once, and nothing is done, if the settings are refused,
or else if the command is.  Otherwise there is one attempt to connect.  If it is met with a failure
in time, or not in time, that is all that happens, and the failure, which is not one of settings,
says so.  If it succeeds in time, the action is carried out over the connection, and after that
the connection is closed, once, whatever came of the action.  The result is that of the action,
however the closing went; the run of the program shows what the action has written, and succeeds
just if the result is a success, and says why if not. -/
theorem one_session_per_run [Writer ω] (w : Outside σ) (parsed : Parsed) (out : ω) (s : σ) :
    let ran := (Program.carryOut w parsed out).run s
    let report := Program.ended ran.result.1 (Act.output ran.acts)
    (∀ env args, parse env args = .ok parsed →
        (Program.runIn w env args out).run s = ⟨report, ran.state, ran.acts⟩) ∧
      (report.exit = 0 ↔ ran.result.1 = .ok ()) ∧
      (∀ f, ran.result.1 = .error f → report.exit = 1 ∧ report.failure = some f) ∧
      (∀ f, parsed.config = .error f → ran = ⟨(.error f, out), s, []⟩) ∧
      (∀ config f, parsed.config = .ok config →
        Action.plan parsed.user parsed.command = .error f → ran = ⟨(.error f, out), s, []⟩) ∧
      ∀ config action, parsed.config = .ok config →
        Action.plan parsed.user parsed.command = .ok action →
        Act.attempts ran.acts = [config.fazUrl] ∧
          let met := w.Meets config.fazUrl config.connectTimeout s
          let later := (w.dial config.fazUrl s).2
          let tried : List Act :=
            [.logged (Connection.connecting config.fazUrl), .dialed config.fazUrl]
          (∀ text, met (.error text) → ran = ⟨(.error (.connection text), out), later, tried⟩) ∧
          ((∀ outcome, ¬ met outcome) →
            ran = ⟨(.error (.timeout "connection timed out"), out), later, tried⟩) ∧
          (met (.ok ()) →
            let done := (action.execute ⟨w.service, config.callDeadline⟩ parsed.format out).run
              later
            let left := w.leave done.state
            ran.result = done.result ∧ ran.state = left.2 ∧
              (∃ before after : List LogEntry, ran.acts =
                tried ++ before.map .logged ++ done.acts ++
                  .closed (left.1.mapError .connection) :: after.map .logged) ∧
              (∀ act ∈ done.acts, act.Inner) ∧
              Act.closings ran.acts = [left.1.mapError .connection] ∧
              report.stdout = Act.output done.acts) := by
  intro ran report
  have hran : ran = (Program.carryOut w parsed out).run s := rfl
  refine ⟨fun env args h => Program.run_runIn h, Program.exit_ended_eq_zero_iff,
    fun f hf => ?_, fun f hf => ?_, fun config f hconfig hplan => ?_,
    fun config action hconfig hplan => ?_⟩
  · rw [show report = Program.ended (.error f) _ from congrArg (Program.ended · _) hf]
    exact ⟨rfl, rfl⟩
  · rw [hran, Program.carryOut_of_config_eq_error hf, Session.run_pure]
  · rw [hran, Program.carryOut_of_plan_eq_error hconfig hplan, Session.run_pure]
  · have hknown : Config.knownScheme config.fazUrl = true := by
      obtain ⟨⟨hscheme, -⟩, rfl⟩ := Parsed.config_eq_ok_iff.1 hconfig
      exact knownScheme_iff.2 hscheme
    have hstdout : report.stdout = Act.output ran.acts := Program.stdout_ended _ _
    rw [Program.carryOut_of_checked hconfig hplan] at hran
    -- A run is the attempt, where that fails, and a whole session, where it does not.
    have hfails (f : Failure) (later : σ)
        (h : (w.attempt config.fazUrl config.connectTimeout).run s =
          ⟨.error f, later, [.dialed config.fazUrl]⟩) :
        ran = ⟨(.error f, out), later, Act.tried config.fazUrl⟩ :=
      hran.trans (Program.run_conduct_of_connect_eq_error action _ _
        (Outside.run_connect_of_error hknown h))
    have hsession (h : w.Meets config.fazUrl config.connectTimeout s (.ok ())) :=
      Program.run_conduct_of_connect_eq_ok action parsed.format out
        (Outside.run_connect_of_meets_ok hknown h)
    have hinner := Action.inside_execute ⟨w.service, config.callDeadline⟩ parsed.format out action
    refine ⟨?_, fun text h => hfails _ _ (Outside.run_attempt_of_meets h),
      fun h => hfails _ _ (Outside.run_attempt_of_late h), fun h => ?_⟩
    · obtain ⟨text, h⟩ | h | h := w.meets_cases config.fazUrl config.connectTimeout s
      · rw [hfails _ _ (Outside.run_attempt_of_meets h)]
        rfl
      · rw [hfails _ _ (Outside.run_attempt_of_late h)]
        rfl
      · obtain ⟨before, after, hconduct⟩ := hsession h
        rw [hran, hconduct]
        exact Act.attempts_session (hinner _)
    · obtain ⟨before, after, hconduct⟩ := hsession h
      rw [hstdout, hran, hconduct]
      exact ⟨rfl, rfl, ⟨before, after, rfl⟩, hinner _, Act.closings_session (hinner _),
        Act.output_session⟩

/-- Registering succeeds once and fails once, and each time closing the connection fails.  Where
the attempt takes longer than the ten seconds it is given, nothing else is done. -/
theorem one_session_per_run_reset :
    let w (delay : Nat) : Outside (List ScriptedReply) :=
      ⟨fun _ replies => (some (delay, .ok ()), replies), .scripted,
        fun replies => (.error "connection reset", replies)⟩
    let args := ["--faz=ws://faz:1", "register", "--", "alice"]
    let run delay replies := (Program.runIn (w delay) [] args Sink.unlimited).run replies
    let busy : List ScriptedReply := [{ failure := some (.remote 13 "busy") }]
    (∀ replies ∈ [[], busy], Act.attempts (run 3 replies).acts = ["ws://faz:1"] ∧
        Act.closings (run 3 replies).acts = [.error (.connection "connection reset")]) ∧
      (run 3 []).result.exit = 0 ∧ (run 3 busy).result.exit ≠ 0 ∧
      (run 10001 []).result.failure = some (.timeout "connection timed out") ∧
      Act.closings (run 10001 []).acts = [] := by
  intro w args run busy
  let parsed : Parsed := ⟨"ws://faz:1", none, .table, 10, 10, .register "alice"⟩
  have hparse : parse [] args = .ok parsed := by decide +kernel
  have hconfig : parsed.config = .ok ⟨"ws://faz:1", 10000, 10000⟩ := by decide +kernel
  have hsession (delay : Nat) (replies : List ScriptedReply) :=
    one_session_per_run (w delay) parsed Sink.unlimited replies
  have hrun (delay : Nat) (replies : List ScriptedReply) :=
    (hsession delay replies).1 [] args hparse
  refine ⟨fun replies _ => ?_, ?_, ?_, ?_⟩
  · obtain ⟨-, -, -, -, -, hchecked⟩ := hsession 3 replies
    obtain ⟨hattempts, -, -, hconnected⟩ := hchecked _ (.register "alice") hconfig rfl
    obtain ⟨-, -, -, -, hclosings, -⟩ := hconnected ⟨3, by decide, rfl⟩
    rw [show run 3 replies = _ from hrun 3 replies]
    exact ⟨hattempts, hclosings⟩
  · rw [show run 3 [] = _ from hrun 3 []]
    exact (hsession 3 []).2.1.2 (by decide +kernel)
  · rw [show run 3 busy = _ from hrun 3 busy]
    exact fun hzero => absurd ((hsession 3 busy).2.1.1 hzero) (by decide +kernel)
  · obtain ⟨-, -, -, -, -, hchecked⟩ := hsession 10001 []
    obtain ⟨-, -, hlate, -⟩ := hchecked _ (.register "alice") hconfig rfl
    have hnever : ∀ outcome, ¬ (w 10001).Meets "ws://faz:1" 10000 [] outcome := by
      rintro outcome ⟨delay, hdelay, hmet⟩
      obtain rfl : 10001 = delay := congrArg Prod.fst (Option.some.inj hmet)
      exact absurd hdelay (by decide)
    rw [show run 10001 [] = _ from hrun 10001 [], hlate hnever]
    exact ⟨rfl, rfl⟩

end FazClient
