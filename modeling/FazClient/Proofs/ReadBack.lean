import Mathlib.Algebra.Group.Nat.Defs
import FazClient.Proofs.Slots
import FazClient.Wire.Scan

/-!
# FazClient.Proofs.ReadBack

The reader inverts the writer on records that fit a schema.  The section is
layered like the reader itself:

* **parts** — numbers, keys and delimited bytes are read back from their written
  form, whatever follows (`Varint.read_encode`, `readKey_encodeKey`,
  `readDelimited_encodeDelimited`);
* **fields** — a record that fits is read back as that record (`readValue_encodeValue`,
  `readField_encode`);
* **messages** — a list of records that fit is read back up to the end that the
  reader was told (`readMessage_encodeAll`), and so is the whole input
  (`scan_encodeAll`).
-/

namespace FazClient.Wire

/-! ## Records that fit -/

/-- A record that a message of the schema may hold, with no more than so many
levels of messages inside it. -/
inductive Record.Fits : (levels : Nat) → Schema → Record → Prop where
  | word {levels s n v f} : s.field? n = some f → f.shape = .word → Fits levels s (.word n v)
  | text {levels s n v f} : s.field? n = some f → f.shape = .text → Fits levels s (.text n v)
  | bytes {levels s n v f} : s.field? n = some f → f.shape = .bytes → Fits levels s (.bytes n v)
  | message {levels s n rs f t} : s.field? n = some f → f.shape = .message t →
      (∀ r ∈ rs, Fits levels t r) → Fits (levels + 1) s (.message n rs)

/-- The fields of a schema are numbered from 1, and there are at most six. -/
theorem Schema.field?_bounds {s : Schema} {n : Nat} {f : Field} (h : s.field? n = some f) :
    0 < n ∧ n ≤ 6 := by
  cases n with
  | zero => simp [Schema.field?] at h
  | succ n =>
    have hlt : n < s.fields.length := (List.getElem?_eq_some_iff.1 h).1
    have hle : s.fields.length ≤ 6 := by
      cases s with
      | payload p => cases p <;> simp [Schema.fields]
      | _ => simp [Schema.fields]
    omega

/-! ## Parts -/

namespace Varint

theorem readWithin_last {room : Nat} {b : UInt8} (rest : List UInt8) (h : b < 128)
    (h' : room = 0 → b < 2) :
    readWithin (room + 1) (.ofBytes (b :: rest)) = some (b.toNat, .ofBytes rest) := by
  rw [readWithin, Input.next?_cons]
  simp only [if_pos h]
  rw [if_neg]
  rintro ⟨h0, h2⟩
  have := h' h0
  rw [UInt8.lt_iff_toNat_lt] at this
  rw [UInt8.le_iff_toNat_le] at h2
  omega

theorem readWithin_more {room : Nat} {b : UInt8} {n : Nat} {i j : Input} {rest : List UInt8}
    (h : ¬ b < 128) (hi : i = .ofBytes (b :: rest))
    (hr : readWithin room (.ofBytes rest) = some (n, j)) :
    readWithin (room + 1) i = some (b.toNat - 128 + 128 * n, j) := by
  subst hi
  rw [readWithin, Input.next?_cons]
  simp only [if_neg h, hr]

/-- Reading back, with as much room as the number needs. -/
theorem readWithin_encode (room n : Nat) (rest : List UInt8)
    (h : n < 2 * 128 ^ room) :
    readWithin (room + 1) (.ofBytes (encode n ++ rest)) = some (n, .ofBytes rest) := by
  induction room generalizing n with
  | zero =>
    have hn : n < 2 := by simpa using h
    have hb : (UInt8.ofNat n).toNat = n := by
      rw [UInt8.toNat_ofNat', Nat.mod_eq_of_lt (by omega)]
    rw [encode_of_lt (by omega), List.singleton_append, readWithin_last, hb]
    · rw [UInt8.lt_iff_toNat_lt, hb]; simp; omega
    · intro _; rw [UInt8.lt_iff_toNat_lt, hb]; simpa using hn
  | succ room ih =>
    by_cases hn : n < 128
    · have hb : (UInt8.ofNat n).toNat = n := by
        rw [UInt8.toNat_ofNat', Nat.mod_eq_of_lt (by omega)]
      rw [encode_of_lt hn, List.singleton_append, readWithin_last, hb]
      · rw [UInt8.lt_iff_toNat_lt, hb]; simpa using hn
      · intro h0; omega
    · have hb : (UInt8.ofNat (n % 128 + 128)).toNat = n % 128 + 128 := by
        rw [UInt8.toNat_ofNat', Nat.mod_eq_of_lt (by omega)]
      have hlt : n / 128 < 2 * 128 ^ room := by
        rw [Nat.pow_succ] at h
        omega
      rw [encode_of_le (by omega), List.cons_append,
        readWithin_more _ rfl (ih _ hlt), hb]
      · simp only [Option.some.injEq, Prod.mk.injEq, and_true]
        omega
      · rw [UInt8.lt_iff_toNat_lt, hb]; simp

/-- Every 64-bit number is read back from its written form. -/
theorem read_encode {n : Nat} (h : n < 2 ^ 64) (rest : List UInt8) :
    read (.ofBytes (encode n ++ rest)) = some (n, .ofBytes rest) :=
  readWithin_encode 9 n rest (by omega)

end Varint

/-- A number is read back from its written form. -/
theorem readNumber_encode {n : Nat} (h : n < 2 ^ 64) (rest : List UInt8) :
    readNumber (.ofBytes (Varint.encode n ++ rest)) = .ok (n, .ofBytes rest) := by
  rw [readNumber, Varint.read_encode h]

/-- A field key is read back from its written form. -/
theorem readKey_encodeKey {n : Nat} (h0 : 0 < n) (h : n < 2 ^ 29) (w : WireType)
    (rest : List UInt8) :
    readKey (.ofBytes (encodeKey n w ++ rest)) = .ok (n, w, .ofBytes rest) := by
  have hw := w.code_lt
  have hmod : (n * 8 + w.code) % 8 = w.code := by omega
  have hdiv : (n * 8 + w.code) / 8 = n := by omega
  have hlt : n * 8 + w.code < UInt32.size := by
    show n * 8 + w.code < 4294967296
    omega
  rw [readKey, encodeKey, readNumber_encode (by omega)]
  simp only [hmod, hdiv, WireType.ofCode?_code]
  rw [if_neg (Nat.not_le_of_lt hlt), if_neg (by omega)]

/-- As many bytes as are asked for are read from the front. -/
theorem readBytes_append (bs rest : List UInt8) :
    readBytes bs.length (.ofBytes (bs ++ rest)) = .ok (bs, .ofBytes rest) := by
  rw [readBytes, Input.splitAt?_append]

/-- Bytes are read back from behind their length. -/
theorem readDelimited_encodeDelimited {bs : List UInt8} (h : bs.length < 2 ^ 64)
    (rest : List UInt8) :
    readDelimited (.ofBytes (encodeDelimited bs ++ rest)) = .ok (bs, .ofBytes rest) := by
  rw [readDelimited, encodeDelimited, List.append_assoc, readNumber_encode h]
  exact readBytes_append bs rest

/-! ## Lengths -/

theorem length_encodeDelimited_lt {bs : List UInt8} :
    bs.length < (encodeDelimited bs).length := by
  rw [length_encodeDelimited, delimitedSize, Varint.size]
  omega

theorem Record.length_encode_pos (r : Record) : 0 < r.encode.length := by
  have hkey : ∀ n w, 0 < (encodeKey n w).length := fun n w => by
    rw [length_encodeKey, keySize, Varint.size]
    omega
  cases r <;> simp only [Record.encode, List.length_append] <;>
    exact Nat.add_pos_left (hkey _ _) _

/-- A record of a list is no longer than the list. -/
theorem length_encode_le_of_mem {rs : List Record} {r : Record} (h : r ∈ rs) :
    r.encode.length ≤ (encodeAll rs).length := by
  induction rs with
  | nil => cases h
  | cons t rs ih =>
    rw [encodeAll, List.length_append]
    cases h with
    | head => omega
    | tail _ h =>
      have := ih h
      omega

/-! ## Fields -/

/-- The reader of a nested message inverts the writer on records that fit. -/
def MessageReader.ReadsBack (levels : Nat) (read : MessageReader) : Prop :=
  ∀ (s : Schema) (rs : List Record) (rest : List UInt8), (∀ r ∈ rs, r.Fits levels s) →
    (encodeAll rs).length < 2 ^ 64 →
    read s rest.length (.ofBytes (encodeAll rs ++ rest)) = .ok (rs, .ofBytes rest)

/-- How the value of a record is laid out. -/
def Record.wireType : Record → WireType
  | word _ _ => .varint
  | text _ _ => .delimited
  | bytes _ _ => .delimited
  | message _ _ => .delimited

/-- The bytes of a record's value. -/
def Record.encodeValue : Record → List UInt8
  | word _ v => Varint.encode v.toNat
  | text _ v => encodeDelimited (Utf8.encode v)
  | bytes _ v => encodeDelimited v
  | message _ rs => encodeDelimited (encodeAll rs)

theorem Record.encode_eq (r : Record) :
    r.encode = encodeKey r.number r.wireType ++ r.encodeValue := by
  cases r <;> rfl

/-- A layout is accepted where it is asked for. -/
theorem expect_self (w : WireType) : expect w w = .ok () := if_pos rfl

/-- What was read is passed on, however errors are changed. -/
theorem ok_mapError_bind (a : α) (f : ε → ε') (g : α → Except ε' β) :
    ((Except.ok a).mapError f >>= g) = g a :=
  rfl

/-- The value of a record that fits is read back, given a reader for the messages
inside it. -/
theorem readValue_encodeValue {nested : Option MessageReader} {levels : Nat} {s : Schema}
    {r : Record} {f : Field} (hfit : r.Fits levels s) (hf : s.field? r.number = some f)
    (hn : ∀ k, levels = k + 1 → ∃ read, nested = some read ∧ MessageReader.ReadsBack k read)
    (hl : r.encodeValue.length < 2 ^ 64) (rest : List UInt8) :
    readValue nested r.number f.shape r.wireType (.ofBytes (r.encodeValue ++ rest)) =
      .ok (r, .ofBytes rest) := by
  cases hfit with
  | @word _ _ n v g hg hshape =>
    obtain rfl : g = f := Option.some.inj (hg.symm.trans hf)
    have hv : v.toNat < 2 ^ 64 := v.toNat_lt
    simp only [readValue, hshape, Record.encodeValue, readNumber_encode hv]
    simp only [Record.wireType, Record.number, expect_self, ok_mapError_bind, Nat.toUInt64,
      UInt64.ofNat_toNat]
    rfl
  | @text _ _ n v g hg hshape =>
    obtain rfl : g = f := Option.some.inj (hg.symm.trans hf)
    have hv : (Utf8.encode v).length < 2 ^ 64 := Nat.lt_trans length_encodeDelimited_lt hl
    simp only [readValue, hshape, Record.encodeValue, readDelimited_encodeDelimited hv]
    simp only [Record.wireType, Record.number, expect_self, ok_mapError_bind,
      Utf8.decode?_encode]
    rfl
  | @bytes _ _ n v g hg hshape =>
    obtain rfl : g = f := Option.some.inj (hg.symm.trans hf)
    have hv : v.length < 2 ^ 64 := Nat.lt_trans length_encodeDelimited_lt hl
    simp only [readValue, hshape, Record.encodeValue, readDelimited_encodeDelimited hv]
    simp only [Record.wireType, Record.number, expect_self, ok_mapError_bind]
    rfl
  | @message k _ n rs g t hg hshape hrs =>
    obtain rfl : g = f := Option.some.inj (hg.symm.trans hf)
    obtain ⟨read, rfl, hread⟩ := hn k rfl
    have hv : (encodeAll rs).length < 2 ^ 64 := Nat.lt_trans length_encodeDelimited_lt hl
    have hstop : (encodeAll rs ++ rest).length - (encodeAll rs).length = rest.length := by
      simp
    have hfits : ¬ (encodeAll rs ++ rest).length < (encodeAll rs).length := by
      simp
    simp only [readValue, hshape, Record.encodeValue, encodeDelimited, List.append_assoc,
      readNumber_encode hv]
    simp only [Record.wireType, Record.number, expect_self, ok_mapError_bind, Input.size_ofBytes,
      if_neg hfits, hstop, hread t rs rest hrs hv]
    rfl

/-- A record that fits is read back, given a reader for the messages inside it. -/
theorem readField_encode {nested : Option MessageReader} {levels : Nat} (l : Nat) {s : Schema}
    {r : Record} (hfit : r.Fits levels s)
    (hn : ∀ k, levels = k + 1 → ∃ read, nested = some read ∧ MessageReader.ReadsBack k read)
    (hl : r.encode.length < 2 ^ 64) (rest : List UInt8) :
    readField nested l s (.ofBytes (r.encode ++ rest)) = .ok (some r, .ofBytes rest) := by
  obtain ⟨f, hf⟩ : ∃ f, s.field? r.number = some f := by
    cases hfit <;> exact ⟨_, by assumption⟩
  obtain ⟨hpos, hle⟩ := Schema.field?_bounds hf
  have hval : r.encodeValue.length < 2 ^ 64 := by
    rw [r.encode_eq, List.length_append] at hl
    omega
  rw [r.encode_eq, List.append_assoc, readField, readKey_encodeKey hpos (by omega)]
  simp only [ok_mapError_bind, hf, readValue_encodeValue hfit hf hn hval]
  rfl

/-! ## Messages -/

/-- Records that are read back one by one are read back as a list, up to the end
that the reader was told. -/
theorem readFields_encodeAll {readOne : Input → Except DecodeError (Option Record × Input)}
    (rest : List UInt8) (rs : List Record)
    (h : ∀ r ∈ rs, ∀ tail,
      readOne (.ofBytes (r.encode ++ tail)) = .ok (some r, .ofBytes tail)) :
    (fuel : Nat) → rs.length ≤ fuel → (done : List Record) →
    readFields readOne rest.length fuel (.ofBytes (encodeAll rs ++ rest)) done =
      .ok (done.reverse ++ rs, .ofBytes rest) := by
  induction rs with
  | nil =>
    intro fuel _ done
    cases fuel <;> simp [readFields, encodeAll]
  | cons r rs ih =>
    intro fuel hfuel done
    cases fuel with
    | zero => simp at hfuel
    | succ fuel =>
      have hr := h r List.mem_cons_self (encodeAll rs ++ rest)
      have hpos := r.length_encode_pos
      have hlt : rest.length < (Input.ofBytes (r.encode ++ (encodeAll rs ++ rest))).size := by
        simp only [Input.size_ofBytes, List.length_append]
        omega
      rw [encodeAll, List.append_assoc, readFields, if_pos hlt, hr]
      have htail := ih (fun t ht => h t (List.mem_cons_of_mem r ht)) fuel
        (by simpa using hfuel) (r :: done)
      simpa using htail

/-- There are no more records than bytes. -/
theorem length_le_length_encodeAll (rs : List Record) : rs.length ≤ (encodeAll rs).length := by
  induction rs with
  | nil => exact Nat.le_refl 0
  | cons r rs ih =>
    have := r.length_encode_pos
    rw [encodeAll, List.length_append, List.length_cons]
    omega

/-- Records that fit are read back up to the end that the reader was told, given a
reader for the messages inside them. -/
theorem readFields_readField {nested : Option MessageReader} {levels : Nat} (l : Nat)
    {s : Schema} {rs : List Record} (hfit : ∀ r ∈ rs, r.Fits levels s)
    (hn : ∀ k, levels = k + 1 → ∃ read, nested = some read ∧ MessageReader.ReadsBack k read)
    (hl : (encodeAll rs).length < 2 ^ 64) (rest : List UInt8) :
    readFields (readField nested l s) rest.length
        (Input.ofBytes (encodeAll rs ++ rest)).size (.ofBytes (encodeAll rs ++ rest)) [] =
      .ok (rs, .ofBytes rest) := by
  have hone : ∀ r ∈ rs, ∀ tail, readField nested l s (.ofBytes (r.encode ++ tail)) =
      .ok (some r, .ofBytes tail) := by
    intro r hr tail
    have hr' := length_encode_le_of_mem hr
    exact readField_encode l (hfit r hr) hn (by omega) tail
  have hfuel : rs.length ≤ (Input.ofBytes (encodeAll rs ++ rest)).size := by
    have := length_le_length_encodeAll rs
    rw [Input.size_ofBytes, List.length_append]
    omega
  exact readFields_encodeAll rest rs hone _ hfuel []

/-- A message whose records fit is read back, within the levels that it takes. -/
theorem readMessage_encodeAll (levels : Nat) :
    MessageReader.ReadsBack levels (readMessage levels) := by
  induction levels with
  | zero =>
    intro s rs rest hfit hl
    exact readFields_readField 0 hfit (by simp) hl rest
  | succ levels ih =>
    intro s rs rest hfit hl
    refine readFields_readField (levels + 1) hfit (fun k hk => ?_) hl rest
    obtain rfl : levels = k := Nat.succ.inj hk
    exact ⟨_, rfl, ih⟩

/-- The whole input is read back as the records that it was written from. -/
theorem scan_encodeAll {s : Schema} {rs : List Record} (hfit : ∀ r ∈ rs, r.Fits maxLevels s)
    (hl : (encodeAll rs).length < 2 ^ 64) : scan s (encodeAll rs) = .ok rs := by
  have h := readMessage_encodeAll maxLevels s rs [] hfit hl
  rw [List.append_nil, List.length_nil] at h
  rw [scan, h]
  rfl

end FazClient.Wire
