import FazClient.Trace

/-!
# FazClient.Service

The event service as a client sees it: a state and, for every call, an answer,
the time it takes to arrive, and the state after the call.

* `Served.within` — what a caller sees who waits until a deadline, which is the
  answer if it is in time (`Served.InTime`, `Served.within_eq_ok_iff`) and a failure
  that names the deadline if not (`Served.within_eq_exceeded`).
-/

namespace FazClient

/-- The service's side of a call: the answer with the milliseconds until it
arrives, unless it never does, the state after the call, and what the way to the
service has to say about it. -/
structure Served (σ α : Type) where
  answer : Option (Nat × Except Failure α)
  state : σ
  log : List LogEntry

/-- A service with states in `σ`. -/
structure Service (σ : Type) where
  serve : (m : Method) → m.Request → σ → Served σ m.Reply

/-- The failure of a call that took too long. -/
def Failure.exceeded (what : String) (deadline : Nat) : Failure :=
  .timeout s!"{what} exceeded {deadline}ms"

theorem Failure.message_exceeded (what : String) (deadline : Nat) :
    (exceeded what deadline).message = s!"timeout: {what} exceeded {deadline}ms" := by
  unfold exceeded message
  generalize toString deadline = number
  simp only [toString, String.append_assoc]

/-- The answer that a caller sees who waits until a deadline.  An answer that
arrives at the deadline is in time. -/
def Served.within (deadline : Nat) (what : String) (served : Served σ α) : Except Failure α :=
  match served.answer with
  | some (delay, answer) => if delay ≤ deadline then answer else .error (.exceeded what deadline)
  | none => .error (.exceeded what deadline)

/-- The answer arrives before or at the deadline, and it is this one. -/
def Served.InTime (served : Served σ α) (deadline : Nat) (answer : Except Failure α) : Prop :=
  ∃ delay ≤ deadline, served.answer = some (delay, answer)

theorem Served.within_eq_of_inTime {served : Served σ α} {deadline : Nat}
    {answer : Except Failure α} (h : served.InTime deadline answer) (what : String) :
    served.within deadline what = answer := by
  obtain ⟨delay, hdelay, hanswer⟩ := h
  simp only [within, hanswer, if_pos hdelay]

theorem Served.InTime.unique {served : Served σ α} {deadline : Nat} {a b : Except Failure α}
    (ha : served.InTime deadline a) (hb : served.InTime deadline b) : a = b := by
  rw [← within_eq_of_inTime ha "", within_eq_of_inTime hb]

/-- What does not arrive in time is a failure that names the deadline. -/
theorem Served.within_eq_exceeded {served : Served σ α} {deadline : Nat}
    (h : ∀ answer, ¬ served.InTime deadline answer) (what : String) :
    served.within deadline what = .error (.exceeded what deadline) := by
  rw [within]
  split
  · next delay answer hanswer => exact if_neg fun hdelay => h answer ⟨delay, hdelay, hanswer⟩
  · rfl

/-- A caller sees a reply just if it is in time. -/
theorem Served.within_eq_ok_iff {served : Served σ α} {deadline : Nat} {reply : α}
    (what : String) :
    served.within deadline what = .ok reply ↔ served.InTime deadline (.ok reply) := by
  constructor
  · intro h
    by_cases harrives : ∃ answer, served.InTime deadline answer
    · obtain ⟨answer, hanswer⟩ := harrives
      rw [within_eq_of_inTime hanswer] at h
      rwa [← h]
    · rw [within_eq_exceeded (not_exists.1 harrives)] at h
      contradiction
  · exact fun h => within_eq_of_inTime h what

/-- A call under a deadline. -/
def Service.callWithin (s : Service σ) (deadline : Nat) (what : String) (m : Method)
    (request : m.Request) : Session σ (Except Failure m.Reply) := fun state =>
  let served := s.serve m request state
  ⟨served.within deadline what, served.state,
    .called ⟨m, request⟩ :: served.log.map .logged⟩

@[simp] theorem Service.run_callWithin (s : Service σ) (deadline : Nat) (what : String)
    (m : Method) (request : m.Request) (state : σ) :
    (s.callWithin deadline what m request).run state =
      ⟨(s.serve m request state).within deadline what, (s.serve m request state).state,
        .called ⟨m, request⟩ :: (s.serve m request state).log.map .logged⟩ :=
  rfl

theorem Service.calls_callWithin (s : Service σ) (deadline : Nat) (what : String) (m : Method)
    (request : m.Request) (state : σ) :
    Act.calls ((s.callWithin deadline what m request).run state).acts = [⟨m, request⟩] := by
  simp

theorem Service.output_callWithin (s : Service σ) (deadline : Nat) (what : String) (m : Method)
    (request : m.Request) (state : σ) :
    Act.output ((s.callWithin deadline what m request).run state).acts = [] :=
  Act.output_map_logged _

end FazClient
