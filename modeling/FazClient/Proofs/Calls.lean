import FazClient.Connection
import FazClient.Event
import FazClient.Payload
import FazClient.Proofs.RoundTrip

/-!
# FazClient.Proofs.Calls

The messages that calls go out as.

* `Frame.size_le`, `EventRequest.size_le`, `HookRequest.size_le` — how many bytes
  they take at most;
* `Payload.pack_eq_ok`, `Payload.unpack_pack` — what fits the limit is packed, and
  is unpacked again;
* `Connection.decode_frame`, `Connection.bodyAs_frame` — the frame of a call, and the request
  in it, are read back.
-/

namespace FazClient

open Wire

/-! ## Lengths of fields -/

/-- A number of 64 bits takes ten bytes at most. -/
theorem Wire.Varint.size_le {n : Nat} (h : n < 2 ^ 64) : Varint.size n ≤ 10 := by
  have hlog : n.log2 < 64 := by
    by_cases h0 : n = 0
    · simp [h0]
    · exact (Nat.log2_lt h0).2 h
  rw [Varint.size]
  omega

@[simp] theorem Wire.sizeAll_append (rs ts : List Record) :
    sizeAll (rs ++ ts) = sizeAll rs + sizeAll ts := by
  rw [← length_encodeAll, encodeAll_append, List.length_append, length_encodeAll,
    length_encodeAll]

/-- A key of a low number takes one byte. -/
theorem Wire.keySize_eq_one {n : Nat} (h : n < 16) (w : WireType) : keySize n w = 1 := by
  have hw := w.code_lt
  have hlog : (n * 8 + w.code).log2 < 7 := by
    by_cases h0 : n * 8 + w.code = 0
    · simp [h0]
    · exact (Nat.log2_lt h0).2 (by omega)
  rw [keySize, Varint.size]
  omega

theorem Wire.sizeAll_putWord_le {n : Nat} (hn : n < 16) (v : UInt64) :
    sizeAll (putWord n v) ≤ 11 := by
  unfold putWord
  split
  · exact Nat.zero_le _
  · have hv := Varint.size_le v.toNat_lt
    simp only [sizeAll, Record.size, keySize_eq_one hn]
    omega

theorem Wire.sizeAll_putText_le {n : Nat} (hn : n < 16) {v : String}
    (hv : v.utf8ByteSize < 2 ^ 64) : sizeAll (putText n v) ≤ 11 + v.utf8ByteSize := by
  unfold putText
  split
  · exact Nat.zero_le _
  · have hv := Varint.size_le hv
    simp only [sizeAll, Record.size, delimitedSize, keySize_eq_one hn]
    omega

theorem Wire.sizeAll_putBytes_le {n : Nat} (hn : n < 16) {v : List UInt8}
    (hv : v.length < 2 ^ 64) : sizeAll (putBytes n v) ≤ 11 + v.length := by
  unfold putBytes
  split
  · exact Nat.zero_le _
  · have hv := Varint.size_le hv
    simp only [sizeAll, Record.size, delimitedSize, keySize_eq_one hn]
    omega

theorem Wire.sizeAll_putMessage?_le {n : Nat} (hn : n < 16) {rs : List Record}
    (hrs : sizeAll rs < 2 ^ 64) : sizeAll (putMessage? n (some rs)) ≤ 11 + sizeAll rs := by
  have hv := Varint.size_le hrs
  simp only [putMessage?, Option.toList_some, List.map_cons, List.map_nil, sizeAll, Record.size,
    delimitedSize, keySize_eq_one hn]
  omega

/-! ## Lengths of messages -/

theorem Frame.size_le {f : Frame} (hb : f.body.length < 2 ^ 64)
    (hm : f.message.utf8ByteSize < 2 ^ 64) :
    size .frame f ≤ 66 + f.body.length + f.message.utf8ByteSize := by
  have h1 := sizeAll_putWord_le (n := 1) (by decide) f.method.toUInt64
  have h2 := sizeAll_putWord_le (n := 2) (by decide) f.callId
  have h3 := sizeAll_putBytes_le (n := 3) (by decide) hb
  have h4 := sizeAll_putWord_le (n := 4) (by decide) (wordOfInt32 f.status)
  have h5 := sizeAll_putText_le (n := 5) (by decide) hm
  have h6 := sizeAll_putWord_le (n := 6) (by decide) f.version.toUInt64
  simp only [size, Schema.toRecords, toRecords, sizeAll_append]
  omega

theorem Any.size_le {a : Any} (ht : a.typeUrl.utf8ByteSize < 2 ^ 64)
    (hv : a.value.length < 2 ^ 64) :
    size .any a ≤ 22 + a.typeUrl.utf8ByteSize + a.value.length := by
  have h1 := sizeAll_putText_le (n := 1) (by decide) ht
  have h2 := sizeAll_putBytes_le (n := 2) (by decide) hv
  simp only [size, Schema.toRecords, toRecords, sizeAll_append]
  omega

theorem EventRequest.size_le (e : Int32) {a : Any} (ha : size .any a < 2 ^ 64) :
    size .eventRequest ⟨e, some a⟩ ≤ 22 + size .any a := by
  have h1 := sizeAll_putWord_le (n := 1) (by decide) (wordOfInt32 e)
  have h2 := sizeAll_putMessage?_le (n := 2) (by decide) ha
  simp only [size, Schema.toRecords, sizeAll_append, Option.map_some] at h2 ⊢
  omega

theorem HookRequest.size_le (e : Int32) {handler : String}
    (hh : handler.utf8ByteSize < 2 ^ 64) :
    size .hookRequest ⟨e, handler⟩ ≤ 22 + handler.utf8ByteSize := by
  have h1 := sizeAll_putWord_le (n := 1) (by decide) (wordOfInt32 e)
  have h2 := sizeAll_putText_le (n := 2) (by decide) hh
  simp only [size, Schema.toRecords, sizeAll_append]
  omega

theorem UnhookRequest.size_le (e : Int32) : size .unhookRequest ⟨e⟩ ≤ 11 :=
  sizeAll_putWord_le (n := 1) (by decide) (wordOfInt32 e)

/-! ## Payloads -/

namespace Payload

/-- The tag of a schema names that schema. -/
theorem typeName?_typeUrl (s : PayloadSchema) : typeName? (typeUrl s) = some s.fullName := by
  cases s <;> decide +kernel

theorem utf8ByteSize_typeUrl_le (s : PayloadSchema) : (typeUrl s).utf8ByteSize ≤ 43 := by
  cases s <;> decide +kernel

/-- A message within the limit is packed as its tag and its bytes. -/
theorem pack_eq_ok {s : PayloadSchema} {m : s.Message}
    (h : (encode (.payload s) m).length ≤ limit) :
    pack s m = .ok ⟨typeUrl s, encode (.payload s) m⟩ := by
  rw [length_encode] at h
  simp only [pack]
  rw [if_neg (by omega)]

/-- A message above the limit is refused. -/
theorem pack_eq_error {s : PayloadSchema} {m : s.Message}
    (h : limit < (encode (.payload s) m).length) : ∃ text, pack s m = .error (.encoding text) := by
  rw [length_encode] at h
  simp only [pack]
  rw [if_pos h]
  exact ⟨_, rfl⟩

/-- What is packed is unpacked again. -/
theorem unpack_pack {s : PayloadSchema} {m : s.Message}
    (h : (encode (.payload s) m).length ≤ limit) :
    unpack s ⟨typeUrl s, encode (.payload s) m⟩ = .ok m := by
  have hlimit : limit < 2 ^ 64 := by decide
  rw [unpack, if_pos (typeName?_typeUrl s), decode_encode (.payload s) m (by omega)]
  rfl

end Payload

/-! ## Frames of calls -/

/-- A request that takes less than 4 GiB, as all requests of a client do. -/
def Method.Short (m : Method) (request : m.Request) : Prop := size m.request request < 2 ^ 32

namespace Connection

variable {m : Method} {request : m.Request}

theorem length_encode_frame_lt (callId : UInt64) (h : m.Short request) :
    (frame m callId request).encode.length < 2 ^ 63 := by
  have hbody : (frame m callId request).body.length < 2 ^ 32 := by
    rw [frame, Frame.call, length_encode]
    exact h
  have hmessage : (frame m callId request).message.utf8ByteSize = 0 := rfl
  have hsize := Frame.size_le (f := frame m callId request) (by omega) (by omega)
  rw [Frame.encode, length_encode]
  omega

/-- The frame of a call is read back. -/
theorem decode_frame (callId : UInt64) (h : m.Short request) :
    Frame.decode (frame m callId request).encode = .ok (frame m callId request) := by
  have hlt := length_encode_frame_lt callId h
  exact Frame.decode_encode_of_current rfl (by omega)

/-- The request in the frame of a call is read back. -/
theorem bodyAs_frame (callId : UInt64) (h : m.Short request) :
    (frame m callId request).bodyAs m.request = .ok request := by
  refine Frame.bodyAs_encode m.request request rfl ?_
  rw [frame, Frame.call, length_encode]
  exact Nat.lt_trans h (by decide)

end Connection

/-- The envelope around a payload within the limit is short. -/
theorem EventRequest.short (e : EventType) {request : e.Request}
    (h : (encode (.payload e.request) request).length ≤ Payload.limit) :
    Method.event.Short
      ⟨e.value, some ⟨Payload.typeUrl e.request, encode (.payload e.request) request⟩⟩ := by
  have hlimit : Payload.limit = 4194304 := by decide
  have hurl := Payload.utf8ByteSize_typeUrl_le e.request
  have hany := Any.size_le
    (a := ⟨Payload.typeUrl e.request, encode (.payload e.request) request⟩)
    (by simp only; omega) (by simp only; omega)
  simp only at hany
  have henv := EventRequest.size_le e.value
    (a := ⟨Payload.typeUrl e.request, encode (.payload e.request) request⟩) (by omega)
  show size .eventRequest _ < 2 ^ 32
  omega

end FazClient
