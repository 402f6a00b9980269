import FazClient.Proofs.Acceptance
import FazClient.Proofs.Packing

/-!
# FazClient.Proofs.Repacking

Writing again what was read.  No form of a message is shorter than the one that is written,
so that whatever was unpacked within the limit can be packed again.

* **reading** — the records that a reader takes from its input are written with no more
  bytes than it took (`Grammar.Number.size_le`, `size_of_readValue`, `sizeAll_of_scan`);
* **adding up** — the message that records add up to is written with no more bytes than
  these records (`PayloadSchema.shrinks`); parts of a nested message that are
  joined save a key, and their lengths need no more room in one number than in several
  (`Varint.size_add_le`);
* `repacking_never_grows` — both, for a payload.
-/

namespace FazClient.Wire

open Grammar

/-! ## Numbers -/

namespace Varint

theorem lt_pow_size (n : Nat) : n < 128 ^ size n := by
  have hpow : 128 ^ size n = 2 ^ (7 * size n) := by
    rw [show (128 : Nat) = 2 ^ 7 from rfl, ← Nat.pow_mul]
  rw [hpow]
  refine Nat.lt_of_lt_of_le Nat.lt_log2_self (Nat.pow_le_pow_right (by decide) ?_)
  rw [size]
  omega

theorem size_le_of_lt_pow {n k : Nat} (hk : 0 < k) (h : n < 128 ^ k) : size n ≤ k := by
  have hlog : n.log2 < 7 * k := by
    by_cases h0 : n = 0
    · rw [h0, Nat.log2_zero]
      omega
    · rw [Nat.log2_lt h0, Nat.pow_mul]
      exact h
  rw [size]
  omega

theorem size_mono {m n : Nat} (h : m ≤ n) : size m ≤ size n :=
  size_le_of_lt_pow (by rw [size]; omega) (Nat.lt_of_le_of_lt h (lt_pow_size n))

/-- A sum is one byte longer at most than the longer number, and so no longer than both. -/
theorem size_add_le (m n : Nat) : size (m + n) ≤ size m + size n := by
  have hm : m < 128 ^ max (size m) (size n) :=
    Nat.lt_of_lt_of_le (lt_pow_size m) (Nat.pow_le_pow_right (by decide) (Nat.le_max_left ..))
  have hn : n < 128 ^ max (size m) (size n) :=
    Nat.lt_of_lt_of_le (lt_pow_size n) (Nat.pow_le_pow_right (by decide) (Nat.le_max_right ..))
  have hsum : m + n < 128 ^ (max (size m) (size n) + 1) := by
    rw [Nat.pow_succ]
    omega
  have hle := size_le_of_lt_pow (by omega) hsum
  have hpos : 0 < size m ∧ 0 < size n := ⟨by rw [size]; omega, by rw [size]; omega⟩
  omega

theorem lt_of_spells {bytes : List UInt8} {n : Nat} (h : Spells bytes n) :
    n < 128 ^ bytes.length := by
  induction h with
  | last hb => simpa [UInt8.lt_iff_toNat_lt] using hb
  | @more b bytes n _ _ ih =>
    have hb := b.toNat_lt
    rw [List.length_cons, Nat.pow_succ]
    omega

end Varint

/-! ## Reading -/

theorem Grammar.Number.size_le {bytes : List UInt8} {n : Nat} (h : Number bytes n) :
    Varint.size n ≤ bytes.length :=
  Varint.size_le_of_lt_pow h.length_pos (Varint.lt_of_spells h.spells)

theorem Grammar.Delimited.size_le {bytes content : List UInt8} (h : Delimited bytes content) :
    delimitedSize content.length ≤ bytes.length := by
  obtain ⟨length, hlength, rfl⟩ := h
  have hsize := hlength.size_le
  rw [delimitedSize, List.length_append]
  omega

/-- What is taken off the front is missing from the rest. -/
theorem Input.size_of_append {i j : Input} {front : List UInt8}
    (h : i.bytes = front ++ j.bytes) : i.size = front.length + j.size := by
  rw [i.size_eq, j.size_eq, h, List.length_append]

/-- A reader of messages takes as many bytes at least as it takes to write what it read. -/
def MessageReader.Spares (read : MessageReader) : Prop :=
  ∀ s stop i rs j, read s stop i = .ok (rs, j) → j.size = stop ∧ sizeAll rs + j.size ≤ i.size

/-- The value of a field is written with no more bytes than it was read from. -/
theorem size_of_readValue {nested : Option MessageReader} (hnested : ∀ read ∈ nested, read.Spares)
    {number : Nat} {shape : Shape} {w : WireType} {i j : Input} {r : Record}
    (h : readValue nested number shape w i = .ok (r, j)) :
    r.size + j.size ≤ keySize number w + i.size := by
  cases shape with
  | word =>
    simp only [readValue, bind_eq_ok_iff, mapError_eq_ok_iff, expect_eq_ok_iff, Prod.exists,
      readNumber_eq_ok_iff] at h
    obtain ⟨-, rfl, n, rest, ⟨bytes, hi, hn⟩, hr⟩ := h
    cases hr
    have hword : n.toUInt64.toNat = n := by
      rw [UInt64.toNat_ofNat', Nat.mod_eq_of_lt hn.lt]
    have hsize := hn.size_le
    have htaken := Input.size_of_append hi
    rw [Record.size, hword]
    omega
  | text =>
    simp only [readValue, bind_eq_ok_iff, mapError_eq_ok_iff, expect_eq_ok_iff, Prod.exists,
      readDelimited_eq_ok_iff] at h
    obtain ⟨-, rfl, content, rest, ⟨bytes, hi, hcontent⟩, hr⟩ := h
    split at hr
    · next text htext =>
      cases hr
      have hsize := hcontent.size_le
      rw [← Utf8.decode?_eq_some_iff.1 htext, Utf8.length_encode] at hsize
      have htaken := Input.size_of_append hi
      rw [Record.size]
      omega
    · cases hr
  | bytes =>
    simp only [readValue, bind_eq_ok_iff, mapError_eq_ok_iff, expect_eq_ok_iff, Prod.exists,
      readDelimited_eq_ok_iff] at h
    obtain ⟨-, rfl, content, rest, ⟨bytes, hi, hcontent⟩, hr⟩ := h
    cases hr
    have hsize := hcontent.size_le
    have htaken := Input.size_of_append hi
    rw [Record.size]
    omega
  | message t =>
    cases nested with
    | none =>
      simp only [readValue, bind_eq_ok_iff] at h
      obtain ⟨-, -, hr⟩ := h
      cases hr
    | some read =>
      simp only [readValue, bind_eq_ok_iff, mapError_eq_ok_iff, expect_eq_ok_iff, Prod.exists,
        readNumber_eq_ok_iff] at h
      obtain ⟨-, rfl, n, rest, ⟨length, hi, hn⟩, hr⟩ := h
      split at hr
      · cases hr
      · next hle =>
        obtain ⟨⟨rs, j'⟩, hread, hr⟩ := bind_eq_ok_iff.1 hr
        cases hr
        obtain ⟨hstop, hrs⟩ := hnested read rfl _ _ _ _ _ hread
        -- The length that was given is that of the bytes taken, which bounds the records.
        have hinner : Varint.size (sizeAll rs) ≤ Varint.size n := Varint.size_mono (by omega)
        have hsize := hn.size_le
        have htaken := Input.size_of_append hi
        simp only [Record.size, delimitedSize]
        omega

/-- A field is written with no more bytes than it was read from; one that is skipped is not
written at all. -/
theorem sizeAll_of_readField {nested : Option MessageReader}
    (hnested : ∀ read ∈ nested, read.Spares) {levels : Nat} {s : Schema} {i j : Input}
    {r : Option Record} (h : readField nested levels s i = .ok (r, j)) :
    sizeAll r.toList + j.size ≤ i.size := by
  simp only [readField, bind_eq_ok_iff, mapError_eq_ok_iff, Prod.exists, readKey_eq_ok_iff] at h
  obtain ⟨number, w, rest, ⟨key, hi, hkey⟩, hr⟩ := h
  have hsize : keySize number w ≤ key.length := hkey.spelled.size_le
  have htaken := Input.size_of_append hi
  split at hr
  · obtain ⟨⟨r', j'⟩, hread, hr⟩ := bind_eq_ok_iff.1 hr
    cases hr
    have hvalue := size_of_readValue hnested (mapError_eq_ok_iff.1 hread)
    simp only [Option.toList_some, sizeAll]
    omega
  · obtain ⟨j', hskip, hr⟩ := bind_eq_ok_iff.1 hr
    cases hr
    obtain ⟨value, hrest, -⟩ := (skips_skipValue levels _ _ _ _).1 (mapError_eq_ok_iff.1 hskip)
    have hskipped := Input.size_of_append hrest
    simp only [Option.toList_none, sizeAll]
    omega

theorem sizeAll_reverse (rs : List Record) : sizeAll rs.reverse = sizeAll rs := by
  induction rs with
  | nil => rfl
  | cons r rs ih =>
    simp only [List.reverse_cons, sizeAll_append, ih, sizeAll]
    omega

/-- Fields one after the other are written with no more bytes than they were read from. -/
theorem sizeAll_of_readFields {readOne : Input → Except DecodeError (Option Record × Input)}
    (hone : ∀ i r j, readOne i = .ok (r, j) → sizeAll r.toList + j.size ≤ i.size)
    {stop fuel : Nat} {i j : Input} {done rs : List Record}
    (h : readFields readOne stop fuel i done = .ok (rs, j)) :
    j.size = stop ∧ sizeAll rs + j.size ≤ sizeAll done + i.size := by
  -- Induction on the fuel; what is done is written together with what is still to be read.
  induction fuel generalizing i done with
  | zero =>
    rw [readFields] at h
    split at h
    · next hsize =>
      cases h
      exact ⟨hsize, Nat.le_of_eq (by rw [sizeAll_reverse])⟩
    · contradiction
  | succ fuel ih =>
    rw [readFields] at h
    split at h
    · split at h
      · contradiction
      · next r rest hread =>
        obtain ⟨hstop, hle⟩ := ih h
        have hfield := hone i r rest hread
        rw [sizeAll_append] at hle
        exact ⟨hstop, by omega⟩
    · split at h
      · next hsize =>
        cases h
        exact ⟨hsize, Nat.le_of_eq (by rw [sizeAll_reverse])⟩
      · contradiction

/-- A message is written with no more bytes than it was read from. -/
theorem spares_readMessage (levels : Nat) : (readMessage levels).Spares := by
  induction levels with
  | zero =>
    intro s stop i rs j h
    have hone : ∀ i r j, readField none 0 s i = .ok (r, j) →
        sizeAll r.toList + j.size ≤ i.size :=
      fun _ _ _ => sizeAll_of_readField (by simp)
    simpa [sizeAll] using sizeAll_of_readFields hone h
  | succ levels ih =>
    intro s stop i rs j h
    have hone : ∀ i r j, readField (some (readMessage levels)) (levels + 1) s i = .ok (r, j) →
        sizeAll r.toList + j.size ≤ i.size :=
      fun _ _ _ => sizeAll_of_readField (by simpa using ih)
    simpa [sizeAll] using sizeAll_of_readFields hone h

/-- The records in some bytes are written with no more bytes. -/
theorem sizeAll_of_scan {s : Schema} {bytes : List UInt8} {rs : List Record}
    (h : scan s bytes = .ok rs) : sizeAll rs ≤ bytes.length := by
  obtain ⟨⟨rs', j⟩, hread, rfl⟩ := map_eq_ok_iff.1 h
  obtain ⟨-, hle⟩ := spares_readMessage maxLevels _ _ _ _ _ hread
  rw [Input.size_ofBytes] at hle
  exact Nat.le_of_add_right_le hle

/-! ## Slots -/

theorem sizeAll_le_of_sublist {rs ts : List Record} (h : rs.Sublist ts) :
    sizeAll rs ≤ sizeAll ts := by
  induction h with
  | slnil => exact Nat.le_refl _
  | cons r _ ih => exact Nat.le_trans ih (Nat.le_add_left ..)
  | cons_cons r _ ih => exact Nat.add_le_add_left ih r.size

/-- One of the records that are among these takes no more bytes than they all. -/
theorem sizeAll_singleton_le {r : Record} {rs ts : List Record} (hr : r ∈ ts)
    (h : ts.Sublist rs) : sizeAll [r] ≤ sizeAll rs :=
  sizeAll_le_of_sublist ((List.singleton_sublist.2 hr).trans h)

theorem sizeAll_slot_add (n : Nat) (rs : List Record) :
    sizeAll (slot n rs) + sizeAll (rs.filter (·.number ≠ n)) = sizeAll rs := by
  induction rs with
  | nil => rfl
  | cons r rs ih =>
    by_cases hr : r.number = n
    · rw [slot, List.filter_cons_of_pos (by simpa using hr),
        List.filter_cons_of_neg (by simpa using hr), ← slot, sizeAll, sizeAll]
      omega
    · rw [slot, List.filter_cons_of_neg (by simpa using hr),
        List.filter_cons_of_pos (by simpa using hr), ← slot, sizeAll, sizeAll]
      omega

theorem slot_filter_of_ne {m n : Nat} (h : m ≠ n) (rs : List Record) :
    slot m (rs.filter (·.number ≠ n)) = slot m rs := by
  rw [slot, List.filter_filter, slot]
  refine List.filter_congr fun r _ => ?_
  by_cases hr : r.number = m <;> simp_all

/-- The slots of different numbers share no record. -/
theorem sizeAll_slots_le (ns : List Nat) (h : ns.Nodup) (rs : List Record) :
    (ns.map fun n => sizeAll (slot n rs)).sum ≤ sizeAll rs := by
  induction ns generalizing rs with
  | nil => exact Nat.zero_le _
  | cons n ns ih =>
    obtain ⟨hn, hns⟩ := List.nodup_cons.1 h
    have hrest : ns.map (fun m => sizeAll (slot m (rs.filter (·.number ≠ n)))) =
        ns.map fun m => sizeAll (slot m rs) := by
      refine List.map_congr_left fun m hm => ?_
      have hne : m ≠ n := fun heq => hn (heq ▸ hm)
      rw [slot_filter_of_ne hne]
    have hle := ih hns (rs.filter (·.number ≠ n))
    have hadd := sizeAll_slot_add n rs
    rw [hrest] at hle
    rw [List.map_cons, List.sum_cons]
    omega

/-! ## Fields -/

/-- What is picked from records of one number is written as some of these records. -/
theorem map_filterMap_sublist_slot {pick : Record → Option α} {put : α → Record} {n : Nat}
    (h : ∀ r v, pick r = some v → put v = r ∧ r.number = n) (rs : List Record) :
    ((rs.filterMap pick).map put).Sublist (slot n rs) := by
  induction rs with
  | nil => exact .slnil
  | cons r rs ih =>
    rw [slot, List.filter_cons, ← slot]
    cases hpick : pick r with
    | none =>
      rw [List.filterMap_cons_none hpick]
      split
      · exact ih.cons r
      · exact ih
    | some v =>
      obtain ⟨rfl, hn⟩ := h r v hpick
      rw [List.filterMap_cons_some hpick, if_pos (decide_eq_true hn)]
      exact ih.cons_cons _

theorem words_sublist (n : Nat) (rs : List Record) :
    ((words n rs).map (.word n)).Sublist (slot n rs) := by
  refine map_filterMap_sublist_slot (fun r v h => ?_) rs
  cases r <;> simp_all [Record.number]

theorem texts_sublist (n : Nat) (rs : List Record) :
    ((texts n rs).map (.text n)).Sublist (slot n rs) := by
  refine map_filterMap_sublist_slot (fun r v h => ?_) rs
  cases r <;> simp_all [Record.number]

theorem byteStrings_sublist (n : Nat) (rs : List Record) :
    ((byteStrings n rs).map (.bytes n)).Sublist (slot n rs) := by
  refine map_filterMap_sublist_slot (fun r v h => ?_) rs
  cases r <;> simp_all [Record.number]

theorem messages_sublist (n : Nat) (rs : List Record) :
    ((messages n rs).map (.message n)).Sublist (slot n rs) := by
  refine map_filterMap_sublist_slot (fun r v h => ?_) rs
  cases r <;> simp_all [Record.number]

/-- The last of the values counts, unless it is the default, and that is one of them. -/
theorem getLastD_mem {vs : List α} {d : α} (h : vs.getLastD d ≠ d) : vs.getLastD d ∈ vs := by
  cases vs with
  | nil => exact absurd rfl h
  | cons v vs =>
    rw [List.getLastD_cons]
    exact List.getLastD_mem_cons

section

variable (n : Nat) (rs : List Record)

theorem sizeAll_putWord_getWord_le : sizeAll (putWord n (getWord n rs)) ≤ sizeAll (slot n rs) := by
  rw [putWord]
  split
  · exact Nat.zero_le _
  · next h =>
    have hmem := List.mem_map_of_mem (f := Record.word n) (getLastD_mem h)
    exact sizeAll_singleton_le hmem (words_sublist n rs)

theorem sizeAll_putText_getText_le : sizeAll (putText n (getText n rs)) ≤ sizeAll (slot n rs) := by
  rw [putText]
  split
  · exact Nat.zero_le _
  · next h =>
    have hmem := List.mem_map_of_mem (f := Record.text n) (getLastD_mem h)
    exact sizeAll_singleton_le hmem (texts_sublist n rs)

theorem sizeAll_putBytes_getBytes_le :
    sizeAll (putBytes n (getBytes n rs)) ≤ sizeAll (slot n rs) := by
  rw [putBytes]
  split
  · exact Nat.zero_le _
  · next h =>
    have hmem := List.mem_map_of_mem (f := Record.bytes n) (getLastD_mem h)
    exact sizeAll_singleton_le hmem (byteStrings_sublist n rs)

theorem sizeAll_putBytes?_getBytes?_le :
    sizeAll (putBytes? n (getBytes? n rs)) ≤ sizeAll (slot n rs) := by
  cases hlast : getBytes? n rs with
  | none => exact Nat.zero_le _
  | some v =>
    have hmem := List.mem_map_of_mem (f := Record.bytes n) (List.mem_of_getLast? hlast)
    exact sizeAll_singleton_le hmem (byteStrings_sublist n rs)

theorem sizeAll_putTexts_texts_le : sizeAll (putTexts n (texts n rs)) ≤ sizeAll (slot n rs) :=
  sizeAll_le_of_sublist (texts_sublist n rs)

end

/-- Joined parts of a message save a key, and room for their lengths. -/
theorem size_message_flatten_le (n : Nat) {parts : List (List Record)} (h : parts ≠ []) :
    (Record.message n parts.flatten).size ≤ sizeAll (parts.map (.message n)) := by
  induction parts with
  | nil => contradiction
  | cons part parts ih =>
    rw [List.map_cons, sizeAll, List.flatten_cons, Record.size, Record.size, sizeAll_append]
    cases parts with
    | nil => simp [sizeAll]
    | cons next parts =>
      have hrest := ih (List.cons_ne_nil next parts)
      have hsum := Varint.size_add_le (sizeAll part) (sizeAll (next :: parts).flatten)
      rw [Record.size] at hrest
      rw [delimitedSize] at hrest ⊢
      rw [delimitedSize]
      omega

/-- A message is written with no more bytes than its records are. -/
def Shrinks (toRecords : α → List Record) (ofRecords : List Record → α) : Prop :=
  ∀ rs, sizeAll (toRecords (ofRecords rs)) ≤ sizeAll rs

section

variable {toRecords : α → List Record} {ofRecords : List Record → α}
  (h : Shrinks toRecords ofRecords) (n : Nat) (rs : List Record)

include h

theorem size_message_le :
    (Record.message n (toRecords (ofRecords rs))).size ≤ (Record.message n rs).size := by
  have hle := h rs
  have hlength := Varint.size_mono hle
  rw [Record.size, Record.size, delimitedSize, delimitedSize]
  omega

theorem sizeAll_putMessage?_getMessage?_le :
    sizeAll (putMessage? n (((getMessage? n rs).map ofRecords).map toRecords)) ≤
      sizeAll (slot n rs) := by
  refine Nat.le_trans ?_ (sizeAll_le_of_sublist (messages_sublist n rs))
  rw [getMessage?]
  split
  · exact Nat.zero_le _
  · next hne =>
    have hjoined := size_message_flatten_le n hne
    have hmessage := size_message_le h n (messages n rs).flatten
    simp only [Option.map_some, putMessage?, Option.toList_some, List.map_cons, List.map_nil,
      sizeAll]
    omega

theorem sizeAll_putMessages_messages_le :
    sizeAll (putMessages n (((messages n rs).map ofRecords).map toRecords)) ≤
      sizeAll (slot n rs) := by
  refine Nat.le_trans ?_ (sizeAll_le_of_sublist (messages_sublist n rs))
  rw [putMessages]
  induction messages n rs with
  | nil => exact Nat.le_refl _
  | cons part parts ih => exact Nat.add_le_add (size_message_le h n part) ih

end

end FazClient.Wire

namespace FazClient

open Wire

/-! ## Messages -/

theorem Timestamp.shrinks : Shrinks toRecords ofRecords := by
  intro rs
  have hslots := sizeAll_slots_le [1, 2] (by decide) rs
  have h1 := sizeAll_putWord_getWord_le 1 rs
  have h2 := sizeAll_putWord_getWord_le 2 rs
  simp only [List.map_cons, List.map_nil, List.sum_cons, List.sum_nil] at hslots
  simp only [toRecords, ofRecords, sizeAll_append, UInt64.toUInt64_toInt64]
  omega

theorem Caw.shrinks : Shrinks toRecords ofRecords := by
  intro rs
  have hslots := sizeAll_slots_le [1, 2, 3, 4, 5] (by decide) rs
  have h1 := sizeAll_putText_getText_le 1 rs
  have h2 := sizeAll_putText_getText_le 2 rs
  have h3 := sizeAll_putBytes_getBytes_le 3 rs
  have h4 := sizeAll_putBytes?_getBytes?_le 4 rs
  have h5 := sizeAll_putMessage?_getMessage?_le Timestamp.shrinks 5 rs
  simp only [List.map_cons, List.map_nil, List.sum_cons, List.sum_nil] at hslots
  simp only [toRecords, ofRecords, sizeAll_append]
  omega

/-- A payload message is written with no more bytes than the records that add up to it. -/
theorem Wire.PayloadSchema.shrinks (s : PayloadSchema) : Shrinks s.toRecords s.ofRecords := by
  intro rs
  have hslots := sizeAll_slots_le [1, 2, 3] (by decide) rs
  have htext := fun n => sizeAll_putText_getText_le n rs
  simp only [List.map_cons, List.map_nil, List.sum_cons, List.sum_nil] at hslots
  cases s with
  | timestamp => exact Timestamp.shrinks rs
  | caw => exact Caw.shrinks rs
  | registerUserRequest | profileRequest =>
    have h1 := htext 1
    simp only [toRecords, ofRecords]
    omega
  | registerUserReply | followReply => exact Nat.zero_le _
  | followRequest =>
    have h1 := htext 1
    have h2 := htext 2
    simp only [toRecords, ofRecords, sizeAll_append]
    omega
  | profileReply =>
    have h1 := sizeAll_putTexts_texts_le 1 rs
    have h2 := sizeAll_putTexts_texts_le 2 rs
    simp only [toRecords, ofRecords, ProfileReply.toRecords, ProfileReply.ofRecords, sizeAll_append]
    omega
  | cawRequest =>
    have h1 := htext 1
    have h2 := htext 2
    have h3 := sizeAll_putBytes?_getBytes?_le 3 rs
    simp only [toRecords, ofRecords, CawRequest.toRecords, CawRequest.ofRecords, sizeAll_append]
    omega
  | cawReply =>
    have h1 := sizeAll_putMessage?_getMessage?_le Caw.shrinks 1 rs
    simp only [toRecords, ofRecords]
    omega
  | readRequest =>
    have h1 := sizeAll_putBytes_getBytes_le 1 rs
    simp only [toRecords, ofRecords]
    omega
  | readReply =>
    have h1 := sizeAll_putMessages_messages_le Caw.shrinks 1 rs
    simp only [toRecords, ofRecords]
    omega

/-- What was decoded is encoded with no more bytes. -/
theorem length_encode_le_of_decode {s : PayloadSchema} {bytes : List UInt8} {m : s.Message}
    (h : decode (.payload s) bytes = .ok m) : (encode (.payload s) m).length ≤ bytes.length := by
  obtain ⟨rs, hscan, rfl⟩ := map_eq_ok_iff.1 h
  rw [length_encode]
  exact Nat.le_trans (s.shrinks rs) (sizeAll_of_scan hscan)

/-- **Repacking never grows**: what was unpacked from a payload within the limit, in
whatever form it stood there, can be packed, with no more bytes.  The new payload is
unpacked as the same message, and packed once more it is the same payload. -/
theorem repacking_never_grows {s : PayloadSchema} {a : Any} {m : s.Message}
    (hlimit : a.value.length ≤ 4194304) (h : Payload.unpack s a = .ok m) :
    ∃ b, Payload.pack s m = .ok b ∧ b.value.length ≤ a.value.length ∧
      Payload.unpack s b = .ok m ∧ (Payload.unpack s b >>= Payload.pack s) = .ok b := by
  obtain ⟨-, hdecode⟩ := Payload.unpack_eq_ok_iff.1 h
  have hle := length_encode_le_of_decode hdecode
  have hfits : (encode (.payload s) m).length ≤ Payload.limit := Nat.le_trans hle hlimit
  have hpack := Payload.pack_eq_ok hfits
  have hunpack := Payload.unpack_pack hfits
  refine ⟨_, hpack, hle, hunpack, ?_⟩
  rw [hunpack]
  exact hpack

/-- A reply whose caw comes in two parts, the second behind an overlong key and with an
explicit default, and then a field that no reply has. -/
theorem repacking_never_grows_parts :
    let a : Any := ⟨"/caw.CawReply", [10, 3, 10, 1, 97, 138, 0, 5, 18, 1, 98, 26, 0, 120, 1]⟩
    let reply : CawReply := ⟨some { username := "a", text := "b" }⟩
    a.value.length ≤ 4194304 ∧ Payload.unpack .cawReply a = .ok reply ∧
      ∃ b, Payload.pack .cawReply reply = .ok b ∧ b.value.length ≤ 15 ∧
        Payload.unpack .cawReply b = .ok reply ∧
        (Payload.unpack .cawReply b >>= Payload.pack .cawReply) = .ok b := by
  intro a reply
  have hlimit : a.value.length ≤ 4194304 := by decide
  have hread : Payload.unpack .cawReply a = .ok reply := by
    subst a reply
    rfl
  exact ⟨hlimit, hread, repacking_never_grows hlimit hread⟩

end FazClient
