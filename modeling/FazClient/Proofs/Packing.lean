import FazClient.Proofs.Tags
import Mathlib.Algebra.Ring.Nat

/-!
# FazClient.Proofs.Packing

How long a message is and what may be packed.  The length of a message can be added up
field by field, from the values alone; a nested message counts with its own length, and
with the length of that number.

* `PayloadSchema.measure` — the length of a message, field by field;
* `PayloadSchema.size_eq_measure` — it is the number that is compared with a limit;
* `packing_measures_exactly` — it is the number of bytes that are written, so that just
  the messages within the limit are packed.
-/

namespace FazClient

namespace Wire

/-! ## Fields -/

/-- The length of a plain word. -/
def measureWord (n : Nat) (v : UInt64) : Nat :=
  if v = 0 then 0 else keySize n .varint + Varint.size v.toNat

/-- The length of a field that holds so many bytes, be they none. -/
def measureDelimited (n length : Nat) : Nat := keySize n .delimited + delimitedSize length

/-- The length of a plain text. -/
def measureText (n : Nat) (v : String) : Nat :=
  if v = "" then 0 else measureDelimited n v.utf8ByteSize

/-- The length of a plain byte string. -/
def measureBytes (n : Nat) (v : List UInt8) : Nat :=
  if v = [] then 0 else measureDelimited n v.length

/-- The length of an optional field, from the length of what it holds. -/
def measureOption (n : Nat) (length? : Option Nat) : Nat := length?.elim 0 (measureDelimited n)

/-- The length of a repeated field, from the lengths of its elements. -/
def measureAll (n : Nat) (lengths : List Nat) : Nat := (lengths.map (measureDelimited n)).sum

theorem sizeAll_putWord (n : Nat) (v : UInt64) : sizeAll (putWord n v) = measureWord n v := by
  rw [putWord, measureWord]
  split <;> simp [sizeAll, Record.size]

theorem sizeAll_putText (n : Nat) (v : String) : sizeAll (putText n v) = measureText n v := by
  rw [putText, measureText]
  split <;> simp [sizeAll, Record.size, measureDelimited]

theorem sizeAll_putBytes (n : Nat) (v : List UInt8) :
    sizeAll (putBytes n v) = measureBytes n v := by
  rw [putBytes, measureBytes]
  split <;> simp [sizeAll, Record.size, measureDelimited]

theorem sizeAll_putBytes? (n : Nat) (v : Option (List UInt8)) :
    sizeAll (putBytes? n v) = measureOption n (v.map (·.length)) := by
  cases v <;> simp [putBytes?, measureOption, sizeAll, Record.size, measureDelimited]

theorem sizeAll_putMessage? (n : Nat) (v : Option (List Record)) :
    sizeAll (putMessage? n v) = measureOption n (v.map sizeAll) := by
  cases v <;> simp [putMessage?, measureOption, sizeAll, Record.size, measureDelimited]

theorem sizeAll_putTexts (n : Nat) (vs : List String) :
    sizeAll (putTexts n vs) = measureAll n (vs.map (·.utf8ByteSize)) := by
  induction vs with
  | nil => rfl
  | cons v vs ih => simp_all [putTexts, measureAll, sizeAll, Record.size, measureDelimited]

theorem sizeAll_putMessages (n : Nat) (vs : List (List Record)) :
    sizeAll (putMessages n vs) = measureAll n (vs.map sizeAll) := by
  induction vs with
  | nil => rfl
  | cons v vs ih => simp_all [putMessages, measureAll, sizeAll, Record.size, measureDelimited]

end Wire

open Wire

/-! ## Messages -/

/-- The length of a time. -/
def Timestamp.measure (m : Timestamp) : Nat :=
  measureWord 1 m.seconds.toUInt64 + measureWord 2 m.useconds.toUInt64

/-- The length of a caw. -/
def Caw.measure (m : Caw) : Nat :=
  measureText 1 m.username + measureText 2 m.text + measureBytes 3 m.id
    + measureOption 4 (m.parentId.map (·.length)) + measureOption 5 (m.timestamp.map (·.measure))

/-- The length of a message that a payload may hold, field by field. -/
def Wire.PayloadSchema.measure : (s : PayloadSchema) → s.Message → Nat
  | .timestamp, m => Timestamp.measure m
  | .caw, m => Caw.measure m
  | .registerUserRequest, m => measureText 1 (RegisterUserRequest.username m)
  | .registerUserReply, _ => 0
  | .followRequest, m =>
    measureText 1 (FollowRequest.username m) + measureText 2 (FollowRequest.toFollow m)
  | .followReply, _ => 0
  | .profileRequest, m => measureText 1 (ProfileRequest.username m)
  | .profileReply, m =>
    measureAll 1 ((ProfileReply.following m).map (·.utf8ByteSize))
      + measureAll 2 ((ProfileReply.followers m).map (·.utf8ByteSize))
  | .cawRequest, m =>
    measureText 1 (CawRequest.username m) + measureText 2 (CawRequest.text m)
      + measureOption 3 ((CawRequest.parentId m).map (·.length))
  | .cawReply, m => measureOption 1 ((CawReply.caw m).map (·.measure))
  | .readRequest, m => measureBytes 1 (ReadRequest.cawId m)
  | .readReply, m => measureAll 1 ((ReadReply.caws m).map (·.measure))

theorem Timestamp.sizeAll_toRecords (m : Timestamp) : sizeAll m.toRecords = m.measure := by
  simp only [toRecords, measure, sizeAll_append, sizeAll_putWord]

theorem Caw.sizeAll_toRecords (m : Caw) : sizeAll m.toRecords = m.measure := by
  have htime : sizeAll ∘ Timestamp.toRecords = Timestamp.measure :=
    funext Timestamp.sizeAll_toRecords
  simp only [toRecords, measure, sizeAll_append, sizeAll_putText, sizeAll_putBytes,
    sizeAll_putBytes?, sizeAll_putMessage?, Option.map_map, htime]

/-- The records of a message take as many bytes as its fields. -/
theorem Wire.PayloadSchema.size_eq_measure (s : PayloadSchema) (m : s.Message) :
    size (.payload s) m = s.measure m := by
  have hcaw : sizeAll ∘ Caw.toRecords = Caw.measure := funext Caw.sizeAll_toRecords
  show sizeAll (s.toRecords m) = s.measure m
  cases s with
  | timestamp => exact Timestamp.sizeAll_toRecords m
  | caw => exact Caw.sizeAll_toRecords m
  | registerUserRequest => exact sizeAll_putText 1 _
  | registerUserReply => rfl
  | followRequest => simp only [toRecords, measure, sizeAll_append, sizeAll_putText]
  | followReply => rfl
  | profileRequest => exact sizeAll_putText 1 _
  | profileReply =>
    simp only [toRecords, measure, ProfileReply.toRecords, sizeAll_append, sizeAll_putTexts]
  | cawRequest =>
    simp only [toRecords, measure, CawRequest.toRecords, sizeAll_append, sizeAll_putText,
      sizeAll_putBytes?]
  | cawReply => simp only [toRecords, measure, sizeAll_putMessage?, Option.map_map, hcaw]
  | readRequest => exact sizeAll_putBytes 1 _
  | readReply => simp only [toRecords, measure, sizeAll_putMessages, List.map_map, hcaw]

/-- The fields of a message take as many bytes as are written. -/
theorem Wire.PayloadSchema.length_encode_eq_measure (s : PayloadSchema) (m : s.Message) :
    (encode (.payload s) m).length = s.measure m := by
  rw [length_encode, s.size_eq_measure]

/-! ## Limits -/

/-- A message is written to a buffer just if its bytes are no more than the buffer holds. -/
theorem encodeWithin_eq (capacity : Nat) (s : Schema) (m : s.Message) :
    encodeWithin capacity s m =
      if (encode s m).length ≤ capacity then .ok (encode s m)
      else .error ⟨(encode s m).length, capacity⟩ := by
  rw [encodeWithin, length_encode]
  by_cases h : size s m ≤ capacity
  · rw [if_pos h, if_neg (Nat.not_lt.2 h)]
  · rw [if_neg h, if_pos (Nat.not_le.1 h)]

/-- A message is packed just if its bytes are no more than the limit; what is refused is
refused with its size. -/
theorem Payload.pack_eq (s : PayloadSchema) (m : s.Message) :
    let bytes := encode (.payload s) m
    Payload.pack s m =
      if bytes.length ≤ limit then .ok ⟨typeUrl s, bytes⟩
      else .error (.encoding s!"{s.fullName} is {bytes.length} bytes, limit is {limit}") := by
  intro bytes
  have hsize : bytes.length = size (.payload s) m := length_encode (.payload s) m
  by_cases h : bytes.length ≤ limit
  · rw [if_pos h, pack_eq_ok h]
  · rw [if_neg h, hsize]
    exact if_pos (hsize ▸ Nat.not_le.1 h)

/-- What is packed is the message's bytes behind the tag of its schema. -/
theorem Payload.eq_of_pack {s : PayloadSchema} {m : s.Message} {a : Any}
    (h : Payload.pack s m = .ok a) : a = ⟨typeUrl s, encode (.payload s) m⟩ := by
  rw [pack_eq_ok (length_le_of_pack h), Except.ok.injEq] at h
  exact h.symm

/-- **Packing measures exactly**: the length that is added up field by field is the number
of bytes that are written.  So a message is packed, and written to a buffer, just if its
bytes are within the limit, and the size in a refusal is the true one; what is packed has
that length, is unpacked again, and is refused as any other schema. -/
theorem packing_measures_exactly (s : PayloadSchema) (m : s.Message) :
    let bytes := encode (.payload s) m
    (size (.payload s) m = s.measure m ∧ bytes.length = s.measure m) ∧
    (Payload.pack s m =
      if bytes.length ≤ 4194304 then .ok ⟨Payload.typeUrl s, bytes⟩
      else .error (.encoding s!"{s.fullName} is {bytes.length} bytes, limit is {4194304}")) ∧
    (∀ capacity, encodeWithin capacity (.payload s) m =
      if bytes.length ≤ capacity then .ok bytes else .error ⟨bytes.length, capacity⟩) ∧
    ∀ a, Payload.pack s m = .ok a →
      a.value.length = s.measure m ∧ Payload.unpack s a = .ok m ∧
        ∀ t, t ≠ s → Payload.unpack t a = .error (.typeMismatch t.fullName a.typeUrl) := by
  refine ⟨⟨s.size_eq_measure m, s.length_encode_eq_measure m⟩, Payload.pack_eq s m,
    fun capacity => encodeWithin_eq capacity (.payload s) m, fun a ha => ?_⟩
  have hfits := Payload.length_le_of_pack ha
  obtain rfl := Payload.eq_of_pack ha
  refine ⟨s.length_encode_eq_measure m, Payload.unpack_pack hfits, fun t ht => ?_⟩
  have hname : Payload.typeName? (Payload.typeUrl s) ≠ some t.fullName := by
    rw [Payload.typeName?_typeUrl, ne_eq, Option.some.injEq]
    exact fun heq => ht (Wire.PayloadSchema.fullName_injective heq.symm)
  exact Payload.unpack_of_ne hname _

/-- A reply whose caw takes 128 bytes, one more than a length of one byte can say. -/
theorem packing_measures_exactly_two_byte_length :
    let reply : CawReply := ⟨some { text := String.ofList (List.replicate 126 'x') }⟩
    let a : Any := ⟨"type.googleapis.com/caw.CawReply", encode (.payload .cawReply) reply⟩
    Payload.pack .cawReply reply = .ok a ∧ a.value.length = 131 ∧
      Payload.unpack .cawReply a = .ok reply ∧
      Payload.unpack .caw a = .error (.typeMismatch "caw.Caw" a.typeUrl) := by
  intro reply a
  have hmeasure : PayloadSchema.cawReply.measure reply = 131 := by decide +kernel
  obtain ⟨⟨-, hlength⟩, hpack, -, hpacked⟩ := packing_measures_exactly .cawReply reply
  have ha : Payload.pack .cawReply reply = .ok a := by
    rw [hpack, if_pos (by omega)]
    rfl
  obtain ⟨hvalue, hunpack, hother⟩ := hpacked a ha
  exact ⟨ha, hvalue.trans hmeasure, hunpack, hother .caw (by decide)⟩

end FazClient
