import FazClient.Text.Utf8
import FazClient.Wire.Fault
import FazClient.Wire.Record

/-!
# FazClient.Wire.Scan

From bytes to field records.  `scan` goes through a message once, field by
field: a field of the schema becomes a record, any other field is skipped.

Two things are checked later than one might think, and both show in the error.
A length is compared with all that is left of the input, not with the end of the
message around it, and a number is read from all that is left, too; only when
the fields of a nested message have gone past its end is that an `overrun`.

Every nested message and every skipped value takes one of `maxLevels` levels.
-/

namespace FazClient.Wire

/-! ## Parts of a field -/

/-- Reads a number. -/
def readNumber (i : Input) : Except Fault (Nat × Input) :=
  match Varint.read i with
  | some r => .ok r
  | none => .error .invalidVarint

/-- Reads a field key: the number of the field and the layout of its value. -/
def readKey (i : Input) : Except Fault (Nat × WireType × Input) :=
  match readNumber i with
  | .error e => .error e
  | .ok (key, rest) =>
    if UInt32.size ≤ key then .error (.invalidKey key)
    else
      match WireType.ofCode? (key % 8) with
      | none => .error (.invalidWireType (key % 8))
      | some w => if key / 8 = 0 then .error .invalidNumber else .ok (key / 8, w, rest)

/-- Reads this many bytes. -/
def readBytes (n : Nat) (i : Input) : Except Fault (List UInt8 × Input) :=
  match i.splitAt? n with
  | some r => .ok r
  | none => .error .underflow

/-- Reads bytes that stand behind their length. -/
def readDelimited (i : Input) : Except Fault (List UInt8 × Input) :=
  match readNumber i with
  | .error e => .error e
  | .ok (n, rest) => readBytes n rest

/-! ## Fields that are skipped -/

/-- Skips the fields of the group with this number, its end key included.  `fuel`
is at least the size of the input; as a field takes a byte or more, it runs out
only where no key is left to read. -/
def skipGroup (skip : Nat → WireType → Input → Except Fault Input) (number : Nat) :
    (fuel : Nat) → Input → Except Fault Input
  | 0, _ => .error .invalidVarint
  | fuel + 1, i =>
    match readKey i with
    | .error e => .error e
    | .ok (n, w, rest) =>
      if w = .endGroup then
        if n = number then .ok rest else .error .unexpectedEndGroup
      else
        match skip n w rest with
        | .error e => .error e
        | .ok rest => skipGroup skip number fuel rest

/-- Skips the value of a field that the schema does not have. -/
def skipValue : (levels number : Nat) → WireType → Input → Except Fault Input
  | 0, _, _, _ => .error .tooDeep
  | levels + 1, number, w, i =>
    match w with
    | .varint => (readNumber i).map (·.2)
    | .fixed64 => (readBytes 8 i).map (·.2)
    | .delimited => (readDelimited i).map (·.2)
    | .startGroup => skipGroup (skipValue levels) number i.size i
    | .endGroup => .error .unexpectedEndGroup
    | .fixed32 => (readBytes 4 i).map (·.2)

/-! ## Fields of the schema -/

/-- Reads the fields of a message of this schema until `stop` bytes are left. -/
abbrev MessageReader :=
  (s : Schema) → (stop : Nat) → Input → Except DecodeError (List Record × Input)

/-- Refuses a value that is not laid out as its shape asks for. -/
def expect (expected actual : WireType) : Except Fault Unit :=
  if actual = expected then .ok () else .error (.wrongWireType actual expected)

/-- Reads the value of a field of the schema.  `nested` reads a message one level
further in and is absent when no level is left. -/
def readValue (nested : Option MessageReader) (number : Nat) (shape : Shape) (w : WireType)
    (i : Input) : Except DecodeError (Record × Input) := do
  match shape with
  | .word =>
    (expect .varint w).mapError .of
    let (n, rest) ← (readNumber i).mapError .of
    return (.word number n.toUInt64, rest)
  | .text =>
    (expect .delimited w).mapError .of
    let (bytes, rest) ← (readDelimited i).mapError .of
    match Utf8.decode? bytes with
    | some text => return (.text number text, rest)
    | none => throw (.of .notUtf8)
  | .bytes =>
    (expect .delimited w).mapError .of
    let (bytes, rest) ← (readDelimited i).mapError .of
    return (.bytes number bytes, rest)
  | .message s =>
    (expect .delimited w).mapError .of
    match nested with
    | none => throw (.of .tooDeep)
    | some read =>
      let (n, rest) ← (readNumber i).mapError .of
      if rest.size < n then
        throw (.of .underflow)
      let (fields, rest) ← read s (rest.size - n) rest
      return (.message number fields, rest)

/-- Reads one field: a record if the schema has the field, nothing if not. -/
def readField (nested : Option MessageReader) (levels : Nat) (s : Schema) (i : Input) :
    Except DecodeError (Option Record × Input) := do
  let (number, w, rest) ← (readKey i).mapError .of
  match s.field? number with
  | some f =>
    let (r, rest) ← (readValue nested number f.shape w rest).mapError (·.inField s f)
    return (some r, rest)
  | none =>
    let rest ← (skipValue levels number w rest).mapError .of
    return (none, rest)

/-- Reads fields until no more than `stop` bytes are left, which then have to be
exactly so many.  `done` holds the records so far, last one first, and `fuel` is
at least the size of the input. -/
def readFields (readOne : Input → Except DecodeError (Option Record × Input)) (stop : Nat) :
    (fuel : Nat) → Input → (done : List Record) → Except DecodeError (List Record × Input)
  | 0, i, done => if i.size = stop then .ok (done.reverse, i) else .error (.of .overrun)
  | fuel + 1, i, done =>
    if stop < i.size then
      match readOne i with
      | .error e => .error e
      | .ok (r, rest) => readFields readOne stop fuel rest (r.toList ++ done)
    else if i.size = stop then .ok (done.reverse, i)
    else .error (.of .overrun)

/-- Reads a message within so many levels. -/
def readMessage : (levels : Nat) → MessageReader
  | 0, s, stop, i => readFields (readField none 0 s) stop i.size i []
  | levels + 1, s, stop, i =>
    readFields (readField (some (readMessage levels)) (levels + 1) s) stop i.size i []

/-! ## Whole messages -/

/-- How many levels of messages and skipped values may be nested. -/
def maxLevels : Nat := 100

/-- The records of the schema's fields in these bytes, in their order. -/
def scan (s : Schema) (bytes : List UInt8) : Except DecodeError (List Record) :=
  (readMessage maxLevels s 0 (.ofBytes bytes)).map (·.1)

end FazClient.Wire
