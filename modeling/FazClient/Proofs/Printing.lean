import FazClient.Command
import FazClient.Proofs.Bindings
import FazClient.Proofs.LossyText
import FazClient.Proofs.PostingTimes
import FazClient.Proofs.Replies
import Mathlib.Data.List.Forall2

/-!
# FazClient.Proofs.Printing

What a command prints.  It performs its operation first and prints afterwards, so that the
output is a front part of the text of one result, and nothing where there is no result.

* `CawView.Tells`, `ThreadView.Tells`, `ProfileView.Tells` — what a view tells of the reply that
  it is made from;
* `Operation.calls_run`, `Operation.exists_grants` — the call of an operation, and the reply
  behind its result;
* `Operation.Presents` — what is shown for a result;
* `Action.execute_eq` — an action is its operation and then one view, or one failure;
* `Action.calls_execute`, `Action.state_execute` — what an action does to the service;
* `commands_print_all_or_nothing` — what this means for the output.
-/

namespace FazClient

/-! ## Views of replies -/

/-- The view of a caw tells whose it is and what it says, its ids as text, and when it was posted,
where that is known. -/
structure CawView.Tells (v : CawView) (caw : Caw) : Prop where
  id : Utf8.Displays caw.id v.id
  username : v.username = caw.username
  text : v.text = caw.text
  parentId : Option.Rel Utf8.Displays caw.parentId v.parentId
  postedAt_of_none : caw.timestamp = none → v.postedAt = none
  postedAt_of_some : ∀ t, caw.timestamp = some t → Shows v.postedAt t.total

theorem CawView.tells (caw : Caw) : (of caw).Tells caw where
  id := Utf8.displays_decodeLossy caw.id
  username := rfl
  text := rfl
  parentId := by
    rw [of]
    cases caw.parentId with
    | none => exact .none
    | some parent => exact .some (Utf8.displays_decodeLossy parent)
  postedAt_of_none h := by rw [of, h, Option.bind_none]
  postedAt_of_some t h := by
    rw [of, h, Option.bind_some]
    exact t.shows

/-- The view of a thread tells from where it was read, and all of its caws in order. -/
structure ThreadView.Tells (v : ThreadView) (root : String) (caws : List Caw) : Prop where
  root : v.root = root
  caws : List.Forall₂ CawView.Tells v.caws caws

theorem ThreadView.tells (root : String) (caws : List Caw) : (of root caws).Tells root caws where
  root := rfl
  caws := by
    rw [of, List.forall₂_map_left_iff, List.forall₂_same]
    exact fun caw _ => CawView.tells caw

/-- The view of a profile tells whose it is, whom that user follows, and who follows that user. -/
structure ProfileView.Tells (v : ProfileView) (username : String) (reply : ProfileReply) :
    Prop where
  username : v.username = username
  following : v.following = reply.following
  followers : v.followers = reply.followers

/-! ## Operations -/

namespace Operation

instance (o : Operation) : Decidable o.Fits :=
  inferInstanceAs (Decidable (_ ≤ _))

variable {c : Client σ}

/-- An operation makes one call, which is its event, unless its request is too large. -/
theorem calls_run (o : Operation) (s : σ) :
    Act.calls ((o.run c).run s).acts = if o.Fits then [⟨.event, o.envelope⟩] else [] := by
  rw [(o.run_extends c).calls]
  by_cases hfits : o.Fits
  · rw [if_pos hfits]
    exact Client.calls_invoke_of_ok (Payload.pack_eq_ok (o.fits_iff.1 hfits)) s
  · obtain ⟨text, hpack⟩ := Payload.pack_eq_error (Nat.lt_of_not_le (mt o.fits_iff.2 hfits))
    rw [if_neg hfits, Client.run_invoke_of_error hpack]
    rfl

/-- An operation leaves the service as its call does. -/
theorem state_run_eq_after (o : Operation) (s : σ) :
    ((o.run c).run s).state = c.service.after s (Act.calls ((o.run c).run s).acts) := by
  rw [calls_run, state_run]
  by_cases hfits : o.Fits
  · rw [if_pos hfits]
    exact Client.state_invoke_of_ok (Payload.pack_eq_ok (o.fits_iff.1 hfits)) s
  · obtain ⟨text, hpack⟩ := Payload.pack_eq_error (Nat.lt_of_not_le (mt o.fits_iff.2 hfits))
    rw [if_neg hfits, Client.run_invoke_of_error hpack]
    rfl

theorem output_run (o : Operation) (s : σ) : Act.output ((o.run c).run s).acts = [] :=
  ((o.run_extends c).output s).trans (Client.output_invoke _ _ s)

/-- A result is granted by a reply that is in time. -/
theorem exists_grants {o : Operation} {s : σ} (h : ((o.run c).run s).result ≠ o.failed) :
    ∃ answer, (c.service.serve .event o.envelope s).InTime c.deadline (.ok answer) ∧
      o.Grants answer ((o.run c).run s).result := by
  obtain ⟨reply?, hinvoke, hgives⟩ := (result_run_eq_iff h).1 rfl
  by_cases hfits : o.Fits
  · have hpack := Payload.pack_eq_ok (o.fits_iff.1 hfits)
    obtain ⟨answer, hin, hsays⟩ := (Client.invoke_eq_ok_iff hpack).1 hinvoke
    exact ⟨answer, hin, grants_iff.2 ⟨h, reply?, hsays, hgives⟩⟩
  · obtain ⟨text, hpack⟩ := Payload.pack_eq_error (Nat.lt_of_not_le (mt o.fits_iff.2 hfits))
    rw [Client.run_invoke_of_error hpack] at hinvoke
    contradiction

/-- What a reply that grants a result carries, if it carries anything, is tagged as the
operation's own reply and is read as one. -/
theorem Grants.unpack {o : Operation} {answer : EventReply} {v : o.Result}
    (h : o.Grants answer v) {payload : Any} (hpayload : answer.payload = some payload) :
    ∃ m, Payload.unpack o.event.reply payload = .ok m := by
  obtain ⟨-, reply?, hsays, -⟩ := grants_iff.1 h
  cases reply? with
  | none => exact nomatch hpayload.symm.trans hsays
  | some m =>
    obtain ⟨carried, hcarried, htag, hm⟩ := hsays
    obtain rfl := Option.some.inj (hpayload.symm.trans hcarried)
    exact ⟨m, Payload.unpack_eq_ok_iff.2 ⟨htag, hm⟩⟩

/-- The view of what an operation gives back, unless it failed. -/
def view? : (o : Operation) → o.Result → Option View
  | registerUser username, ok =>
    if ok then some (.notice ⟨s!"Registered user {username}", true⟩) else none
  | follow username toFollow, ok =>
    if ok then some (.notice ⟨s!"{username} now follows {toFollow}", true⟩) else none
  | profile username, reply => reply.map fun reply => .profile (.of username reply)
  | post _ _ _, caw => caw.map fun caw => .caw (.of caw)
  | read cawId, caws => caws.map fun caws => .thread (.of cawId caws)

/-- The view says that this result was given: that an account was created or a user is followed,
or all that the reply tells. -/
def Presents : (o : Operation) → o.Result → View → Prop
  | registerUser username, ok, view =>
    ok = true ∧ view = .notice ⟨"Registered user " ++ username, true⟩
  | follow username toFollow, ok, view =>
    ok = true ∧ view = .notice ⟨username ++ " now follows " ++ toFollow, true⟩
  | profile username, reply?, view =>
    ∃ reply v, reply? = some reply ∧ view = .profile v ∧ v.Tells username reply
  | post _ _ _, caw?, view => ∃ caw v, caw? = some caw ∧ view = .caw v ∧ v.Tells caw
  | read cawId, caws?, view => ∃ caws v, caws? = some caws ∧ view = .thread v ∧ v.Tells cawId caws

theorem presents_of_view? {o : Operation} {v : o.Result} {view : View} (h : o.view? v = some view) :
    o.Presents v view := by
  cases o with
  | registerUser _ | follow _ _ =>
    obtain ⟨hok, hview⟩ := Option.ite_none_right_eq_some.1 h
    refine ⟨hok, (Option.some.inj hview).symm.trans ?_⟩
    simp [toString]
  | profile username =>
    obtain ⟨reply, hreply, rfl⟩ := Option.map_eq_some_iff.1 h
    exact ⟨reply, _, hreply, rfl, rfl, rfl, rfl⟩
  | post _ _ _ =>
    obtain ⟨caw, hcaw, rfl⟩ := Option.map_eq_some_iff.1 h
    exact ⟨caw, _, hcaw, rfl, CawView.tells caw⟩
  | read cawId =>
    obtain ⟨caws, hcaws, rfl⟩ := Option.map_eq_some_iff.1 h
    exact ⟨caws, _, hcaws, rfl, ThreadView.tells cawId caws⟩

theorem view?_eq_none_iff {o : Operation} {v : o.Result} : o.view? v = none ↔ v = o.failed := by
  cases o with
  | registerUser _ | follow _ _ => cases v <;> simp [view?, failed]
  | profile _ | post _ _ _ | read _ => exact Option.map_eq_none_iff

end Operation

/-! ## Actions -/

/-- The operation of an action, unless it is about the handlers. -/
def Action.operation? : Action → Option Operation
  | hooks _ => none
  | register username => some (.registerUser username)
  | follow user toFollow => some (.follow user toFollow)
  | profile user => some (.profile user)
  | post user text replyTo => some (.post user text (replyTo.getD ""))
  | read cawId => some (.read cawId)

section

variable [Writer ω] (f : Format) (out : ω)

/-- Shows a view, or fails if there is none. -/
def presentOr (text : String) : Option View → Session σ (Except Failure Unit × ω)
  | some view => present f view out
  | none => return (.error (.command text), out)

/-- An action performs its operation, and then shows what that gave back. -/
theorem Action.execute_eq (c : Client σ) {a : Action} {o : Operation} (h : a.operation? = some o) :
    ∃ text, a.execute c f out = o.run c >>= fun v => presentOr f out text (o.view? v) := by
  cases a with
  | hooks a => contradiction
  | register username =>
    obtain rfl := Option.some.inj h
    rw [execute]
    exact ⟨_, bind_congr fun ok => by cases ok <;> rfl⟩
  | follow user toFollow =>
    obtain rfl := Option.some.inj h
    rw [execute]
    exact ⟨_, bind_congr fun ok => by cases ok <;> rfl⟩
  | profile user =>
    obtain rfl := Option.some.inj h
    rw [execute]
    exact ⟨_, bind_congr fun reply => by cases reply <;> rfl⟩
  | post user text replyTo =>
    obtain rfl := Option.some.inj h
    rw [execute]
    exact ⟨_, bind_congr fun caw => by cases caw <;> rfl⟩
  | read cawId =>
    obtain rfl := Option.some.inj h
    rw [execute]
    exact ⟨_, bind_congr fun caws => by cases caws <;> rfl⟩

variable {f} {c : Client σ} {a : Action} {o : Operation} {s : σ}

/-- An action whose operation fails is a failure, and does no more. -/
theorem Action.run_execute_of_failed (ho : a.operation? = some o)
    (hfailed : ((o.run c).run s).result = o.failed) :
    ∃ text, (a.execute c f out).run s =
      ⟨(.error (.command text), out), ((o.run c).run s).state, ((o.run c).run s).acts⟩ := by
  obtain ⟨text, hexecute⟩ := a.execute_eq f out c ho
  refine ⟨text, ?_⟩
  rw [hexecute, Session.run_bind, Operation.view?_eq_none_iff.2 hfailed]
  simp [presentOr]

/-- An action whose operation gives something back shows it. -/
theorem Action.run_execute_of_view {view : View} (ho : a.operation? = some o)
    (hview : o.view? ((o.run c).run s).result = some view) :
    let written := f.print view out
    (a.execute c f out).run s =
      ⟨(written.result, written.state), ((o.run c).run s).state,
        ((o.run c).run s).acts ++ [.wrote written.accepted]⟩ := by
  obtain ⟨text, hexecute⟩ := a.execute_eq f out c ho
  rw [hexecute, Session.run_bind, hview]
  rfl

end

section

variable [Writer ω] (c : Client σ) (f : Format) (out : ω) (s : σ) {a : Action} {o : Operation}

/-- What an action does to the service is what its operation does. -/
theorem Action.run_execute_agrees (ho : a.operation? = some o) :
    Act.calls ((a.execute c f out).run s).acts = Act.calls ((o.run c).run s).acts ∧
      ((a.execute c f out).run s).state = ((o.run c).run s).state := by
  cases hview : o.view? ((o.run c).run s).result with
  | none =>
    obtain ⟨text, hran⟩ :=
      a.run_execute_of_failed out (f := f) ho (Operation.view?_eq_none_iff.1 hview)
    rw [hran]
    exact ⟨rfl, rfl⟩
  | some view =>
    rw [a.run_execute_of_view out (f := f) ho hview]
    exact ⟨Act.calls_concat_wrote _ _, rfl⟩

/-- The calls of an action that is not about the handlers are those of its operation. -/
theorem Action.calls_execute (ho : a.operation? = some o) :
    Act.calls ((a.execute c f out).run s).acts = if o.Fits then [⟨.event, o.envelope⟩] else [] :=
  (Action.run_execute_agrees c f out s ho).1.trans (o.calls_run s)

/-- An action that is not about the handlers leaves the service as its calls do. -/
theorem Action.state_execute (ho : a.operation? = some o) :
    ((a.execute c f out).run s).state =
      c.service.after s (Act.calls ((a.execute c f out).run s).acts) := by
  obtain ⟨hcalls, hstate⟩ := Action.run_execute_agrees c f out s ho
  rw [hcalls, hstate]
  exact o.state_run_eq_after s

end

/-- **Output of commands**: whatever the service answers and whatever the writer does, an action
that is not about the handlers makes no call but its event.  If its operation fails, nothing is
written, and that is the failure.  If not, the output is what the writer took of the text of a
view that says what the operation gave back, and success is reported just if that is the whole
text.  So where there is output, a reply that is in time grants what is shown, and what it
carries was read as the operation's own reply. -/
theorem commands_print_all_or_nothing [Writer ω] (c : Client σ) (f : Format) (out : ω) (s : σ)
    {a : Action} {o : Operation} (ho : a.operation? = some o) :
    let served := c.service.serve .event o.envelope s
    let given := ((o.run c).run s).result
    let ran := (a.execute c f out).run s
    let output := Act.output ran.acts
    Act.calls ran.acts = (if o.Fits then [⟨.event, o.envelope⟩] else []) ∧
      ran.state = c.service.after s (Act.calls ran.acts) ∧
      (given = o.failed →
        output = [] ∧ ran.result.2 = out ∧ ∃ text, ran.result.1 = .error (.command text)) ∧
      (given ≠ o.failed → ∃ answer view, served.InTime c.deadline (.ok answer) ∧
        o.Grants answer given ∧ o.Presents given view ∧
        let full := Utf8.encode (f.render view)
        Written.Reports ⟨ran.result.1, output, ran.result.2⟩ out full (f.failure full.length) ∧
          output <+: full ∧ (ran.result.1 = .ok () ↔ output = full)) ∧
      (output ≠ [] → ∃ answer, served.InTime c.deadline (.ok answer) ∧ o.Grants answer given ∧
        ∀ payload, answer.payload = some payload →
          ∃ m, Payload.unpack o.event.reply payload = .ok m) := by
  intro served given ran output
  have hcalls := Action.calls_execute c f out s ho
  have hstate := Action.state_execute c f out s ho
  have hquiet : Act.output ((o.run c).run s).acts = [] := o.output_run s
  by_cases hfailed : given = o.failed
  · obtain ⟨text, hran⟩ := Action.run_execute_of_failed out (f := f) ho hfailed
    refine ⟨hcalls, hstate, fun _ => ?_, fun h => absurd hfailed h, fun h => absurd ?_ h⟩
    · simp only [ran, output, hran]
      exact ⟨hquiet, trivial, text, rfl⟩
    · simp only [output, ran, hran]
      exact hquiet
  · obtain ⟨view, hview⟩ := Option.ne_none_iff_exists'.1 (mt Operation.view?_eq_none_iff.1 hfailed)
    have hran := Action.run_execute_of_view out (f := f) ho hview
    have houtput : output = (f.print view out).accepted := by
      simp only [output, ran, hran]
      exact Act.output_concat_wrote hquiet _
    have hresult : ran.result = ((f.print view out).result, (f.print view out).state) :=
      congrArg Ran.result hran
    have hreports := f.reports_print view out
    obtain ⟨answer, hin, hgrants⟩ := Operation.exists_grants hfailed
    rw [houtput, hresult]
    exact ⟨hcalls, hstate, fun h => absurd h hfailed, fun _ => ⟨answer, view, hin, hgrants,
      Operation.presents_of_view? hview, hreports, hreports.front, hreports.ok_iff⟩,
      fun _ => ⟨answer, hin, hgrants, fun _ => hgrants.unpack⟩⟩

/-- A post that is answered at the deadline, on a sink with room for five bytes, and one that
is answered by a reply without a caw. -/
theorem commands_print_all_or_nothing_full :
    let client : Client (List ScriptedReply) := ⟨.scripted, 100⟩
    let caw : Caw := { username := "a", text := "hi" }
    let reply : Any :=
      ⟨"type.googleapis.com/caw.CawReply", encode (.payload .cawReply) (CawReply.mk (some caw))⟩
    let bare : Any := ⟨"type.googleapis.com/caw.CawReply", []⟩
    let action := Action.post "a" "hi" none
    let shown := (action.execute client .table (Sink.limited 5)).run
      [{ delay := some 100, payload := some reply }]
    let refused := (action.execute client .json (Sink.limited 5)).run [{ payload := some bare }]
    Action.plan (some "a") (.caw "hi" none) = .ok action ∧
      shown.result.1 = .error (.io "writer is full") ∧
      (∃ v : CawView, v.Tells caw ∧ Writer.Takes (Sink.limited 5)
        (Utf8.encode (Format.table.render (.caw v))) (Utf8.encode "Caw  ") (some "writer is full")
          shown.result.2) ∧
      Act.output refused.acts = [] ∧ refused.result.2 = .limited 5 := by
  intro client caw reply bare action shown refused
  have ho : action.operation? = some (.post "a" "hi" "") := rfl
  obtain ⟨-, -, -, hresult, -⟩ := commands_print_all_or_nothing client .table (Sink.limited 5)
    [{ delay := some 100, payload := some reply }] ho
  obtain ⟨-, -, hnothing, -, -⟩ := commands_print_all_or_nothing client .json (Sink.limited 5)
    [{ payload := some bare }] ho
  have houtput : Act.output shown.acts = Utf8.encode "Caw  " := by decide +kernel
  have hfull : shown.result.1 = .error (.io "writer is full") := by decide +kernel
  have hgiven : (((Operation.post "a" "hi" "").run client).run
      [{ delay := some 100, payload := some reply }]).result = some caw := by decide +kernel
  obtain ⟨answer, view, -, -, ⟨_, v, hcaw, rfl, htells⟩, hreports, -⟩ :=
    hresult (hgiven ▸ Option.some_ne_none caw)
  obtain rfl := Option.some.inj (hgiven.symm.trans hcaw)
  obtain ⟨hempty, hsame, -⟩ := hnothing (by decide +kernel)
  refine ⟨rfl, hfull, ⟨v, htells, ?_⟩, hempty, hsame⟩
  obtain ⟨hok, -⟩ | ⟨reason, herror, htakes⟩ := hreports
  · exact nomatch hfull.symm.trans hok
  · obtain rfl : "writer is full" = reason :=
      Failure.io.inj (Except.error.inj (hfull.symm.trans herror))
    rw [← houtput]
    dsimp only at htakes
    exact htakes

end FazClient
