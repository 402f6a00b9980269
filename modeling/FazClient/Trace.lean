import FazClient.Frame

/-!
# FazClient.Trace

What a run does that can be seen from outside, in one order: calls to the
service, log entries, output, and the connection being made and closed.
-/

namespace FazClient

/-! ## Log entries -/

/-- How much a log entry matters. -/
inductive Level where
  | trace
  | debug
  | info
  | warn
  deriving DecidableEq

/-- The name of a level. -/
def Level.name : Level → String
  | trace => "TRACE"
  | debug => "DEBUG"
  | info => "INFO"
  | warn => "WARN"

/-- A line of the log, with named values. -/
structure LogEntry where
  level : Level
  message : String
  fields : List (String × String)
  deriving DecidableEq

/-! ## Acts -/

/-- A call to the service: a method and a request of it. -/
structure Call where
  method : Method
  request : method.Request

/-- One thing that was done. -/
inductive Act where
  /-- A connection to this address was tried. -/
  | dialed (url : String)
  | called (c : Call)
  | logged (e : LogEntry)
  | wrote (bytes : List UInt8)
  /-- The connection was closed, with or without success. -/
  | closed (result : Except Failure Unit)

namespace Act

/-- The call, if it is one. -/
def call? : Act → Option Call
  | called c => some c
  | _ => none

/-- The log entry, if it is one. -/
def entry? : Act → Option LogEntry
  | logged e => some e
  | _ => none

/-- The bytes that were written, if any. -/
def bytes : Act → List UInt8
  | wrote bytes => bytes
  | _ => []

/-- The calls among the acts, in order. -/
def calls (acts : List Act) : List Call := acts.filterMap call?

/-- The log entries among the acts, in order. -/
def log (acts : List Act) : List LogEntry := acts.filterMap entry?

/-- The output of the acts. -/
def output (acts : List Act) : List UInt8 := acts.flatMap bytes

@[simp] theorem calls_nil : calls [] = [] :=
  rfl

@[simp] theorem calls_cons_called (c : Call) (acts : List Act) :
    calls (called c :: acts) = c :: calls acts :=
  rfl

@[simp] theorem calls_cons_logged (e : LogEntry) (acts : List Act) :
    calls (logged e :: acts) = calls acts :=
  rfl

@[simp] theorem calls_append (a b : List Act) : calls (a ++ b) = calls a ++ calls b :=
  List.filterMap_append

@[simp] theorem log_append (a b : List Act) : log (a ++ b) = log a ++ log b :=
  List.filterMap_append

@[simp] theorem output_append (a b : List Act) : output (a ++ b) = output a ++ output b :=
  List.flatMap_append

theorem calls_concat_wrote (acts : List Act) (bytes : List UInt8) :
    calls (acts ++ [wrote bytes]) = calls acts := by
  rw [calls_append]
  exact List.append_nil _

/-- Where nothing was written before, the output is what is written last. -/
theorem output_concat_wrote {acts : List Act} (h : output acts = []) (bytes : List UInt8) :
    output (acts ++ [wrote bytes]) = bytes := by
  rw [output_append, h]
  exact List.append_nil _

@[simp] theorem calls_map_logged (es : List LogEntry) : calls (es.map logged) = [] := by
  induction es with
  | nil => rfl
  | cons e es ih => simp [calls, call?]

@[simp] theorem log_map_logged (es : List LogEntry) : log (es.map logged) = es := by
  induction es with
  | nil => rfl
  | cons e es ih => simpa [log, entry?] using ih

@[simp] theorem output_map_logged (es : List LogEntry) : output (es.map logged) = [] := by
  simp [output, bytes]

end Act

/-! ## Computations -/

/-- What a computation leaves behind: its result, the state of what it talks to,
and what it did. -/
structure Ran (σ α : Type) where
  result : α
  state : σ
  acts : List Act

/-- A computation that talks to something with states in `σ`. -/
def Session (σ α : Type) : Type := σ → Ran σ α

namespace Session

/-- Runs a computation from a state. -/
def run (s : Session σ α) (state : σ) : Ran σ α := s state

instance : Monad (Session σ) where
  pure a := fun state => ⟨a, state, []⟩
  bind s f := fun state =>
    let first := s.run state
    let second := (f first.result).run first.state
    ⟨second.result, second.state, first.acts ++ second.acts⟩

@[simp] theorem run_pure (a : α) (state : σ) :
    (pure a : Session σ α).run state = ⟨a, state, []⟩ :=
  rfl

@[simp] theorem run_bind (s : Session σ α) (f : α → Session σ β) (state : σ) :
    (s >>= f).run state =
      ⟨((f (s.run state).result).run (s.run state).state).result,
        ((f (s.run state).result).run (s.run state).state).state,
        (s.run state).acts ++ ((f (s.run state).result).run (s.run state).state).acts⟩ :=
  rfl

theorem bind_assoc (s : Session σ α) (f : α → Session σ β) (g : β → Session σ γ) :
    s >>= f >>= g = s >>= fun a => f a >>= g := by
  funext state
  exact congrArg (Ran.mk _ _) (List.append_assoc _ _ _)

/-- Writes a log entry. -/
def log (level : Level) (message : String) (fields : List (String × String)) : Session σ Unit :=
  fun state => ⟨(), state, [.logged ⟨level, message, fields⟩]⟩

/-- Writes a log entry that is made already. -/
def record (e : LogEntry) : Session σ Unit := log e.level e.message e.fields

@[simp] theorem run_log (l : Level) (m : String) (fs : List (String × String)) (state : σ) :
    (log l m fs).run state = ⟨(), state, [.logged ⟨l, m, fs⟩]⟩ :=
  rfl

@[simp] theorem run_record (e : LogEntry) (state : σ) :
    (record e).run state = ⟨(), state, [.logged e]⟩ :=
  rfl

end Session

end FazClient
