import FazClient.Text.Utf8
import FazClient.Wire.Varint
import FazClient.Wire.Schema

/-!
# FazClient.Wire.Record

A message as the wire shows it: a list of field records, each with its number
and its value.  The value of a message field is again a list of records, so that
all schemas share one writer and one notion of length.

* `Record.length_encode`, `length_encodeAll` — `size`, which looks at no byte of
  the written form, is its length.
-/

namespace FazClient.Wire

/-- One field as it stands in a message. -/
inductive Record where
  | word (number : Nat) (value : UInt64)
  | text (number : Nat) (value : String)
  | bytes (number : Nat) (value : List UInt8)
  | message (number : Nat) (fields : List Record)

/-! ## Writing -/

/-- A field key: the number of the field and the layout of its value. -/
def encodeKey (number : Nat) (w : WireType) : List UInt8 := Varint.encode (number * 8 + w.code)

/-- Bytes behind their length. -/
def encodeDelimited (bytes : List UInt8) : List UInt8 := Varint.encode bytes.length ++ bytes

mutual

/-- The bytes of a record. -/
def Record.encode : Record → List UInt8
  | .word n v => encodeKey n .varint ++ Varint.encode v.toNat
  | .text n v => encodeKey n .delimited ++ encodeDelimited (Utf8.encode v)
  | .bytes n v => encodeKey n .delimited ++ encodeDelimited v
  | .message n rs => encodeKey n .delimited ++ encodeDelimited (encodeAll rs)

/-- The bytes of records, one after the other. -/
def encodeAll : List Record → List UInt8
  | [] => []
  | r :: rs => r.encode ++ encodeAll rs

end

/-! ## Lengths -/

/-- The length of a field key. -/
def keySize (number : Nat) (w : WireType) : Nat := Varint.size (number * 8 + w.code)

/-- The length of bytes behind their length. -/
def delimitedSize (length : Nat) : Nat := Varint.size length + length

mutual

/-- The length of a record, computed from its parts. -/
def Record.size : Record → Nat
  | .word n v => keySize n .varint + Varint.size v.toNat
  | .text n v => keySize n .delimited + delimitedSize v.utf8ByteSize
  | .bytes n v => keySize n .delimited + delimitedSize v.length
  | .message n rs => keySize n .delimited + delimitedSize (sizeAll rs)

/-- The length of records, one after the other. -/
def sizeAll : List Record → Nat
  | [] => 0
  | r :: rs => r.size + sizeAll rs

end

theorem length_encodeKey (n : Nat) (w : WireType) : (encodeKey n w).length = keySize n w :=
  Varint.length_encode _

theorem length_encodeDelimited (bs : List UInt8) :
    (encodeDelimited bs).length = delimitedSize bs.length := by
  simp [encodeDelimited, delimitedSize, Varint.length_encode]

mutual

theorem Record.length_encode : (r : Record) → r.encode.length = r.size
  | .word n v => by
    simp [Record.encode, Record.size, length_encodeKey, Varint.length_encode]
  | .text n v => by
    simp [Record.encode, Record.size, length_encodeKey, length_encodeDelimited,
      Utf8.length_encode]
  | .bytes n v => by
    simp [Record.encode, Record.size, length_encodeKey, length_encodeDelimited]
  | .message n rs => by
    simp [Record.encode, Record.size, length_encodeKey, length_encodeDelimited,
      length_encodeAll rs]

theorem length_encodeAll : (rs : List Record) → (encodeAll rs).length = sizeAll rs
  | [] => rfl
  | r :: rs => by
    simp [encodeAll, sizeAll, Record.length_encode r, length_encodeAll rs]

end

@[simp] theorem encodeAll_append (rs ts : List Record) :
    encodeAll (rs ++ ts) = encodeAll rs ++ encodeAll ts := by
  induction rs with
  | nil => rfl
  | cons r rs ih => simp [encodeAll, ih]

end FazClient.Wire
