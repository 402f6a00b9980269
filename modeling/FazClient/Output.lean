import FazClient.View

/-!
# FazClient.Output

Writing a view.  Output goes piece by piece to a writer that may fail at any byte; then what
it accepted stays, and the rest of the view is not tried.

* `Writer` — a place for output; `Sink` is one that keeps what it accepts, and may run full;
* `Writer.Takes` — what a writer takes of some bytes, by what it does with each offer; it is a
  front part, and that is all just if the writer gives no reason (`Writer.Takes.eq_none_iff`);
* `Format.reports_print` — what is reported of a view is what the writer did with its text;
* `Format.write_unlimited` — a sink without a limit gets all of it.
-/

namespace FazClient

/-! ## Writers -/

/-- A place for output, with states in `ω`.  It is offered bytes, and accepts so many of them
from the front, at most all, or it fails for a reason and accepts none.  An offer that is
interrupted is made again, and does not count. -/
class Writer (ω : Type) where
  offer : List UInt8 → ω → Except String Nat × ω

/-- What became of some output: whether all of it was accepted, the bytes that were, and the
writer then. -/
structure Written (ω : Type) where
  result : Except Failure Unit
  accepted : List UInt8
  state : ω

/-- Goes on with output if all of it was accepted so far. -/
def Written.andThen (first : Written ω) (next : ω → Written ω) : Written ω :=
  match first.result with
  | .error _ => first
  | .ok () =>
    let later := next first.state
    { later with accepted := first.accepted ++ later.accepted }

namespace Writer

/-- The reason that is given for a writer that accepts nothing and does not fail. -/
def zeroText : String := "failed to write whole buffer"

section

variable [Writer ω]

/-- Offers bytes until all are accepted, where so many at the front have been already; gives
back those that are not accepted, with the reason. -/
def offerAll : (pending : Nat) → List UInt8 → ω → List UInt8 × Option String × ω
  | _, [], s => ([], none, s)
  | pending + 1, _ :: rest, s => offerAll pending rest s
  | 0, b :: rest, s =>
    match offer (b :: rest) s with
    | (.error reason, s) => (b :: rest, some reason, s)
    | (.ok 0, s) => (b :: rest, some zeroText, s)
    | (.ok (pending + 1), s) => offerAll pending rest s

/-- Writes one piece.  A reason not to accept it is made a failure. -/
def write (fail : String → Failure) (piece : String) (s : ω) : Written ω :=
  let bytes := Utf8.encode piece
  let (left, fault?, s) := offerAll 0 bytes s
  let result := match fault? with
    | none => .ok ()
    | some reason => .error (fail reason)
  ⟨result, bytes.take (bytes.length - left.length), s⟩

/-- Writes pieces until one is not accepted. -/
def writeAll (fail : String → Failure) : List String → ω → Written ω
  | [], s => ⟨.ok (), [], s⟩
  | piece :: pieces, s => (write fail piece s).andThen fun s => writeAll fail pieces s

end

end Writer

/-! ## What a writer takes -/

/-- What a writer takes of some bytes, offer by offer, and why it stops, if it does.  Every offer
is the front of what is left; the writer takes a part of it, from the front, or it takes nothing
of it and the matter is ended. -/
inductive Writer.Takes [Writer ω] :
    (before : ω) → (bytes taken : List UInt8) → (reason? : Option String) → (after : ω) → Prop where
  | all {s : ω} : Takes s [] [] none s
  | part {s mid after : ω} {offered more taken : List UInt8} {reason? : Option String} {count : Nat}
      (hne : offered ≠ []) (hoffer : offer offered s = (.ok (count + 1), mid))
      (hrest : Takes mid (offered.drop (count + 1) ++ more) taken reason? after) :
      Takes s (offered ++ more) (offered.take (count + 1) ++ taken) reason? after
  | nothing {s after : ω} {offered more : List UInt8} (hne : offered ≠ [])
      (hoffer : offer offered s = (.ok 0, after)) :
      Takes s (offered ++ more) [] (some zeroText) after
  | fails {s after : ω} {offered more : List UInt8} {reason : String} (hne : offered ≠ [])
      (hoffer : offer offered s = (.error reason, after)) :
      Takes s (offered ++ more) [] (some reason) after

namespace Writer

variable [Writer ω] {s mid after : ω} {a b bytes taken : List UInt8} {reason? : Option String}

namespace Takes

/-- What is left is at the end, and there is a reason just if there is something. -/
theorem exists_left (h : Takes s bytes taken reason? after) :
    ∃ left, taken ++ left = bytes ∧ (reason? = none ↔ left = []) := by
  induction h with
  | all => exact ⟨[], rfl, by simp⟩
  | part _ _ _ ih =>
    obtain ⟨left, hleft, hnone⟩ := ih
    refine ⟨left, ?_, hnone⟩
    rw [List.append_assoc, hleft, ← List.append_assoc, List.take_append_drop]
  | nothing hne _ | fails hne _ => exact ⟨_, rfl, by simp [hne]⟩

theorem front (h : Takes s bytes taken reason? after) : taken <+: bytes := by
  obtain ⟨left, hleft, -⟩ := h.exists_left
  exact ⟨left, hleft⟩

theorem eq_none_iff (h : Takes s bytes taken reason? after) : reason? = none ↔ taken = bytes := by
  obtain ⟨left, rfl, hnone⟩ := h.exists_left
  rw [hnone]
  exact List.self_eq_append_right.symm

theorem length_lt {reason : String} (h : Takes s bytes taken (some reason) after) :
    taken.length < bytes.length := by
  have hne : taken ≠ bytes := fun heq => nomatch h.eq_none_iff.2 heq
  have hle := h.front.length_le
  have hlength : taken.length ≠ bytes.length := fun heq => hne (h.front.eq_of_length heq)
  omega

/-- A writer that took all of some bytes goes on with the next. -/
theorem append {taken' : List UInt8} {reason'? : Option String} (h : Takes s a taken reason? mid)
    (hall : reason? = none) (hnext : Takes mid b taken' reason'? after) :
    Takes s (a ++ b) (taken ++ taken') reason'? after := by
  induction h with
  | all => exact hnext
  | part hne hoffer _ ih =>
    rw [List.append_assoc, List.append_assoc]
    refine part hne hoffer ?_
    rw [← List.append_assoc]
    exact ih hall hnext
  | nothing | fails => contradiction

/-- A writer that has stopped takes nothing of what would be next. -/
theorem append_right (h : Takes s a taken reason? after) (hstops : reason? ≠ none)
    (b : List UInt8) : Takes s (a ++ b) taken reason? after := by
  induction h with
  | all => contradiction
  | part hne hoffer _ ih =>
    rw [List.append_assoc]
    refine part hne hoffer ?_
    rw [← List.append_assoc]
    exact ih hstops
  | nothing hne hoffer =>
    rw [List.append_assoc]
    exact nothing hne hoffer
  | fails hne hoffer =>
    rw [List.append_assoc]
    exact fails hne hoffer

end Takes

/-- Bytes at the front that have been accepted are not offered. -/
theorem offerAll_eq (pending : Nat) (bytes : List UInt8) (s : ω) :
    offerAll pending bytes s = offerAll 0 (bytes.drop pending) s := by
  induction pending generalizing bytes with
  | zero => rfl
  | succ pending ih =>
    cases bytes with
    | nil => rfl
    | cons b rest => exact ih rest

/-- What is offered until all is accepted is taken offer by offer. -/
theorem takes_offerAll (bytes : List UInt8) (s : ω) :
    ∃ taken, taken ++ (offerAll 0 bytes s).1 = bytes ∧
      Takes s bytes taken (offerAll 0 bytes s).2.1 (offerAll 0 bytes s).2.2 := by
  match bytes with
  | [] => exact ⟨[], rfl, .all⟩
  | b :: rest =>
    have hne : b :: rest ≠ [] := List.cons_ne_nil b rest
    -- The offer is all that is left, so that nothing comes after it.
    rw [← List.append_nil (b :: rest)]
    match hoffer : offer (b :: rest) s with
    | (.error reason, after) =>
      have hend : offerAll 0 (b :: rest ++ []) s = (b :: rest, some reason, after) := by
        rw [List.append_nil, offerAll, hoffer]
      rw [hend]
      exact ⟨[], (List.append_nil _).symm, .fails hne hoffer⟩
    | (.ok 0, after) =>
      have hend : offerAll 0 (b :: rest ++ []) s = (b :: rest, some zeroText, after) := by
        rw [List.append_nil, offerAll, hoffer]
      rw [hend]
      exact ⟨[], (List.append_nil _).symm, .nothing hne hoffer⟩
    | (.ok (count + 1), mid) =>
      have hstep : offerAll 0 (b :: rest ++ []) s = offerAll 0 (rest.drop count) mid := by
        rw [List.append_nil, offerAll, hoffer]
        exact offerAll_eq count rest mid
      obtain ⟨taken, hsplit, htakes⟩ := takes_offerAll (rest.drop count) mid
      rw [hstep]
      refine ⟨(b :: rest).take (count + 1) ++ taken, ?_, .part hne hoffer ?_⟩
      · simp [hsplit]
      · simpa using htakes
termination_by bytes.length

end Writer

/-! ## What is reported -/

/-- What became of output is what the writer did: success is reported if it took all, and if not,
a failure that is made of how much it took and of its reason. -/
def Written.Reports [Writer ω] (w : Written ω) (before : ω) (bytes : List UInt8)
    (fail : Nat → String → Failure) : Prop :=
  (w.result = .ok () ∧ Writer.Takes before bytes w.accepted none w.state) ∨
    ∃ reason, w.result = .error (fail w.accepted.length reason) ∧
      Writer.Takes before bytes w.accepted (some reason) w.state

namespace Written.Reports

variable [Writer ω] {w : Written ω} {s : ω} {a b bytes : List UInt8}
  {fail fail' : Nat → String → Failure}

theorem exists_takes (h : w.Reports s bytes fail) :
    ∃ reason?, Writer.Takes s bytes w.accepted reason? w.state ∧
      (reason? = none → w.result = .ok ()) ∧
      ∀ reason, reason? = some reason → w.result = .error (fail w.accepted.length reason) := by
  obtain ⟨hok, htakes⟩ | ⟨reason, herror, htakes⟩ := h
  · exact ⟨none, htakes, fun _ => hok, nofun⟩
  · exact ⟨some reason, htakes, nofun, fun _ heq => Option.some.inj heq ▸ herror⟩

/-- A front part of the bytes was accepted. -/
theorem front (h : w.Reports s bytes fail) : w.accepted <+: bytes := by
  obtain ⟨-, htakes⟩ | ⟨_, -, htakes⟩ := h
  · exact htakes.front
  · exact htakes.front

/-- All was accepted just if that is reported. -/
theorem ok_iff (h : w.Reports s bytes fail) : w.result = .ok () ↔ w.accepted = bytes := by
  obtain ⟨hok, htakes⟩ | ⟨reason, herror, htakes⟩ := h
  · exact iff_of_true hok (htakes.eq_none_iff.1 rfl)
  · rw [herror, ← htakes.eq_none_iff]
    simp

/-- The failure of two outputs is that of the first, unless that was accepted. -/
theorem andThen {first : Written ω} {next : ω → Written ω} (hfirst : first.Reports s a fail)
    (hnext : ∀ mid, (next mid).Reports mid b fail') :
    (first.andThen next).Reports s (a ++ b) fun taken =>
      if taken < a.length then fail taken else fail' (taken - a.length) := by
  obtain ⟨result, accepted, mid⟩ := first
  obtain ⟨hok, htakes⟩ | ⟨reason, herror, htakes⟩ := hfirst
  · obtain rfl : result = .ok () := hok
    obtain rfl : accepted = a := htakes.eq_none_iff.1 rfl
    obtain ⟨hok, hnext⟩ | ⟨reason, herror, hnext⟩ := hnext mid
    · exact .inl ⟨hok, htakes.append rfl hnext⟩
    · refine .inr ⟨reason, herror.trans ?_, htakes.append rfl hnext⟩
      have hbeyond : ¬ accepted.length + (next mid).accepted.length < accepted.length := by omega
      simp [Written.andThen, hbeyond]
  · obtain rfl : result = .error (fail accepted.length reason) := herror
    refine .inr ⟨reason, ?_, htakes.append_right nofun b⟩
    exact congrArg Except.error (congrFun (if_pos htakes.length_lt).symm reason)

end Written.Reports

namespace Writer

variable [Writer ω] (fail : String → Failure)

theorem reports_write (piece : String) (s : ω) :
    (write fail piece s).Reports s (Utf8.encode piece) fun _ => fail := by
  have hspec := takes_offerAll (Utf8.encode piece) s
  rw [write]
  generalize Utf8.encode piece = bytes at hspec ⊢
  generalize offerAll 0 bytes s = outcome at hspec ⊢
  obtain ⟨left, fault?, after⟩ := outcome
  obtain ⟨taken, rfl, htakes⟩ := hspec
  have haccepted : (taken ++ left).take ((taken ++ left).length - left.length) = taken := by
    simp
  simp only [Written.Reports, haccepted]
  cases fault? with
  | none => exact .inl ⟨rfl, htakes⟩
  | some reason => exact .inr ⟨reason, rfl, htakes⟩

theorem reports_writeAll (pieces : List String) (s : ω) :
    (writeAll fail pieces s).Reports s (Utf8.encode (String.join pieces)) fun _ => fail := by
  rw [Utf8.encode_join]
  induction pieces generalizing s with
  | nil => exact .inl ⟨rfl, .all⟩
  | cons piece pieces ih =>
    have hwritten := (reports_write fail piece s).andThen ih
    simp only [ite_self] at hwritten
    exact hwritten

end Writer

/-! ## Sinks -/

/-- A writer that keeps what it accepts: what it took so far and, if it is limited, for how many
more bytes there is room. -/
structure Sink where
  room : Option Nat
  written : Array UInt8 := #[]

namespace Sink

/-- A sink without a limit. -/
def unlimited : Sink := ⟨none, #[]⟩

/-- A sink with room for so many bytes. -/
def limited (room : Nat) : Sink := ⟨some room, #[]⟩

/-- The reason a sink gives when it is full. -/
def fullText : String := "writer is full"

/-- A sink accepts as much as there is room for, and fails if that is nothing. -/
instance : Writer Sink where
  offer bytes s :=
    match s.room with
    | none => (.ok bytes.length, ⟨none, s.written ++ bytes⟩)
    | some 0 => (.error fullText, s)
    | some room =>
      (.ok (min room bytes.length), ⟨some (room - bytes.length), s.written ++ bytes.take room⟩)

variable {s after : Sink} {bytes taken : List UInt8} {reason? : Option String}

/-- A sink keeps what it accepts of an offer. -/
theorem written_of_offer {count : Nat} (h : Writer.offer bytes s = (.ok count, after)) :
    after.written.toList = s.written.toList ++ bytes.take count := by
  obtain ⟨_ | _ | room, written⟩ := s
  · obtain ⟨rfl, rfl⟩ : bytes.length = count ∧ ⟨none, written ++ bytes⟩ = after := by
      simpa [Writer.offer] using h
    simp
  · cases h
  · obtain ⟨rfl, rfl⟩ : min (room + 1) bytes.length = count ∧
        ⟨some (room + 1 - bytes.length), written ++ bytes.take (room + 1)⟩ = after := by
      simpa [Writer.offer] using h
    simp [List.take_eq_take_min]

/-- A sink that fails stays as it is. -/
theorem eq_of_offer_error {reason : String} (h : Writer.offer bytes s = (.error reason, after)) :
    after = s := by
  obtain ⟨_ | _ | room, written⟩ := s
  · cases h
  · exact (congrArg Prod.snd h).symm
  · cases h

/-- A sink keeps what it takes. -/
theorem written_of_takes (h : Writer.Takes s bytes taken reason? after) :
    after.written.toList = s.written.toList ++ taken := by
  induction h with
  | all => exact (List.append_nil _).symm
  | part _ hoffer _ ih => rw [ih, written_of_offer hoffer, List.append_assoc]
  | nothing _ hoffer => rw [written_of_offer hoffer, List.take_zero]
  | fails _ hoffer => rw [eq_of_offer_error hoffer, List.append_nil]

/-- A sink without a limit takes everything. -/
theorem takes_unlimited (h : Writer.Takes s bytes taken reason? after) (hs : s.room = none) :
    reason? = none ∧ after.room = none := by
  induction h with
  | all => exact ⟨rfl, hs⟩
  | @part s mid _ offered _ _ _ count _ hoffer _ ih =>
    obtain ⟨room, written⟩ := s
    obtain rfl : room = none := hs
    exact ih (congrArg (fun offered => offered.2.room) hoffer).symm
  | @nothing s _ offered _ hne hoffer =>
    obtain ⟨room, written⟩ := s
    obtain rfl : room = none := hs
    have hlength : offered.length = 0 := Except.ok.inj (congrArg Prod.fst hoffer)
    exact absurd (List.length_eq_zero_iff.1 hlength) hne
  | @fails s _ _ _ _ _ hoffer =>
    obtain ⟨room, written⟩ := s
    obtain rfl : room = none := hs
    cases hoffer

end Sink

/-! ## Formats -/

/-- How views are shown. -/
inductive Format where
  | table
  | json
  deriving DecidableEq

namespace Format

/-- The format that is taken when none is asked for. -/
def default : Format := .table

/-- The text of a view. -/
def render (f : Format) (v : View) : String :=
  match f with
  | table => String.join v.table
  | json => String.join (v.json.chunks 0) ++ "\n"

/-- The failure of a writer within a JSON text. -/
def jsonFailure (reason : String) : Failure := .format s!"JSON serialization failed: {reason}"

/-- Writes a view.  A writer that fails within the JSON text is a fault of formatting;
everywhere else it is one of output. -/
def print [Writer ω] (f : Format) (v : View) (s : ω) : Written ω :=
  match f with
  | table => Writer.writeAll .io v.table s
  | json => (Writer.writeAll jsonFailure (v.json.chunks 0) s).andThen (Writer.write .io "\n")

/-- Writes a view; whether that succeeded. -/
def write [Writer ω] (f : Format) (v : View) (s : ω) : Except Failure Unit × ω :=
  let written := f.print v s
  (written.result, written.state)

/-- What a format makes of the reason of a writer that took so many bytes of a text. -/
def failure (f : Format) (length taken : Nat) (reason : String) : Failure :=
  match f with
  | table => .io reason
  | json => if taken + 1 < length then jsonFailure reason else .io reason

/-- What became of a view is what the writer did with its text. -/
theorem reports_print [Writer ω] (f : Format) (v : View) (s : ω) :
    (f.print v s).Reports s (Utf8.encode (f.render v))
      (f.failure (Utf8.encode (f.render v)).length) := by
  cases f with
  | table => exact Writer.reports_writeAll .io v.table s
  | json =>
    -- The newline after the value is output of its own.
    have hwritten := (Writer.reports_writeAll jsonFailure (v.json.chunks 0) s).andThen
      (Writer.reports_write .io "\n")
    have hlength : (Utf8.encode (json.render v)).length =
        (Utf8.encode (String.join (v.json.chunks 0))).length + 1 := by
      rw [render, Utf8.encode_append, List.length_append]
      rfl
    have hfailure : json.failure (Utf8.encode (json.render v)).length = fun taken =>
        if taken < (Utf8.encode (String.join (v.json.chunks 0))).length then jsonFailure
        else .io := by
      funext taken reason
      simp only [failure, hlength, Nat.add_lt_add_iff_right]
      split <;> rfl
    rw [hfailure, render, Utf8.encode_append]
    exact hwritten

/-- A sink without a limit gets the text of a view. -/
theorem write_unlimited (f : Format) (v : View) :
    f.write v Sink.unlimited = (.ok (), ⟨none, (Utf8.encode (f.render v)).toArray⟩) := by
  have hreports := f.reports_print v Sink.unlimited
  rw [write]
  generalize f.print v Sink.unlimited = written at hreports
  obtain ⟨result, accepted, room, kept⟩ := written
  obtain ⟨hok, htakes⟩ | ⟨_, -, htakes⟩ := hreports
  · obtain rfl : result = .ok () := hok
    obtain rfl : accepted = Utf8.encode (f.render v) := htakes.eq_none_iff.1 rfl
    obtain rfl : room = none := (Sink.takes_unlimited htakes rfl).2
    obtain rfl : kept = (Utf8.encode (f.render v)).toArray :=
      Array.toList_inj.1 (Sink.written_of_takes htakes)
    rfl
  · exact nomatch (Sink.takes_unlimited htakes rfl).1

end Format

end FazClient
