import FazClient.Wire.Schema

/-!
# FazClient.Wire.Fault

Why bytes are no message of a schema, and where.
-/

namespace FazClient.Wire

/-- What is wrong with the bytes. -/
inductive Fault where
  /-- A number breaks off, is too long or is too large. -/
  | invalidVarint
  /-- A field key is above the largest one, `2 ^ 32 - 1`. -/
  | invalidKey (key : Nat)
  /-- A field key has a code that is no wire type. -/
  | invalidWireType (code : Nat)
  /-- A field key has the number 0. -/
  | invalidNumber
  /-- A field of the schema is laid out in another way than its shape asks for. -/
  | wrongWireType (actual expected : WireType)
  /-- A length exceeds all that is left of the input. -/
  | underflow
  /-- The fields of a nested message do not end where the message ends. -/
  | overrun
  /-- A text is not well-formed UTF-8. -/
  | notUtf8
  /-- A group is closed that is not open. -/
  | unexpectedEndGroup
  /-- Messages and skipped values are nested too deeply. -/
  | tooDeep
  deriving DecidableEq

/-- The description of a fault. -/
def Fault.message : Fault → String
  | .invalidVarint => "invalid varint"
  | .invalidKey key => s!"invalid key value: {key}"
  | .invalidWireType code => s!"invalid wire type value: {code}"
  | .invalidNumber => "invalid tag value: 0"
  | .wrongWireType actual expected =>
    s!"invalid wire type: {actual.name} (expected {expected.name})"
  | .underflow => "buffer underflow"
  | .overrun => "delimited length exceeded"
  | .notUtf8 => "invalid string value: data is not UTF-8 encoded"
  | .unexpectedEndGroup => "unexpected end group tag"
  | .tooDeep => "recursion limit reached"

/-- A field on the way to a fault: the schema and the field's name in it. -/
structure Place where
  schema : String
  field : String
  deriving DecidableEq

/-- A fault and the fields around it, innermost first. -/
structure DecodeError where
  path : List Place
  fault : Fault
  deriving DecidableEq

namespace DecodeError

/-- A fault outside any field. -/
def of (fault : Fault) : DecodeError := ⟨[], fault⟩

/-- The same fault, seen from outside a field of a schema. -/
def inField (s : Schema) (f : Field) (e : DecodeError) : DecodeError :=
  { e with path := e.path ++ [⟨s.name, f.name⟩] }

/-- The text of the error: the fields around the fault, innermost first, and the
description of the fault. -/
def message (e : DecodeError) : String :=
  "failed to decode Protobuf message: "
    ++ String.join (e.path.map fun p => s!"{p.schema}.{p.field}: ") ++ e.fault.message

end DecodeError

/-! ## Results of readers -/

theorem bind_eq_ok_iff {x : Except ε α} {f : α → Except ε β} {b : β} :
    (x >>= f) = .ok b ↔ ∃ a, x = .ok a ∧ f a = .ok b := by
  cases x <;> simp [bind, Except.bind]

theorem map_eq_ok_iff {x : Except ε α} {f : α → β} {b : β} :
    x.map f = .ok b ↔ ∃ a, x = .ok a ∧ f a = b := by
  cases x <;> simp [Except.map]

theorem mapError_eq_ok_iff {x : Except ε α} {f : ε → ε'} {a : α} :
    x.mapError f = .ok a ↔ x = .ok a := by
  cases x with
  | error e =>
    show Except.error (f e) = Except.ok a ↔ _
    simp only [reduceCtorEq]
  | ok b =>
    show Except.ok b = Except.ok a ↔ _
    simp only [Except.ok.injEq]

end FazClient.Wire
