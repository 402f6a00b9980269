import FazClient.Proofs.Acceptance

/-!
# FazClient.Proofs.Locality

What the bytes of a field or of a message say does not depend on what follows them.

* **values** — `readValue_word`, `readValue_message`, … : a value of each shape, in front
  of anything;
* **fields** — `SaysField`: a field says the same in front of anything, and every field of
  the grammar says something (`exists_saysField`);
* **messages** — fields that were read are left behind (`readFields_of_reads`), so that bytes
  behind a message are read as if they stood alone (`scan_append`).
-/

namespace FazClient.Wire

open Grammar

/-! ## Values -/

/-- In front of anything, this message is read as these records. -/
def MessageReader.Says (read : MessageReader) (t : Schema) (content : List UInt8)
    (rs : List Record) : Prop :=
  ∀ rest, read t rest.length (.ofBytes (content ++ rest)) = .ok (rs, .ofBytes rest)

/-- In front of anything, this value is read as this record. -/
def SaysValue (nested : Option MessageReader) (number : Nat) (shape : Shape) (w : WireType)
    (value : List UInt8) (r : Record) : Prop :=
  ∀ rest, readValue nested number shape w (.ofBytes (value ++ rest)) = .ok (r, .ofBytes rest)

section

variable {nested : Option MessageReader} {number : Nat} {value : List UInt8}

theorem saysValue_word {n : Nat} (h : Number value n) :
    SaysValue nested number .word .varint value (.word number n.toUInt64) := by
  intro rest
  have hread : readNumber (.ofBytes (value ++ rest)) = .ok (n, .ofBytes rest) :=
    readNumber_eq_ok_iff.2 ⟨value, rfl, h⟩
  simp only [readValue, expect_self, hread, ok_mapError_bind]
  rfl

theorem saysValue_text {text : String} (h : Delimited value (Utf8.encode text)) :
    SaysValue nested number .text .delimited value (.text number text) := by
  intro rest
  have hread : readDelimited (.ofBytes (value ++ rest)) = .ok (Utf8.encode text, .ofBytes rest) :=
    readDelimited_eq_ok_iff.2 ⟨value, rfl, h⟩
  simp only [readValue, expect_self, hread, ok_mapError_bind, Utf8.decode?_encode]
  rfl

theorem saysValue_bytes {content : List UInt8} (h : Delimited value content) :
    SaysValue nested number .bytes .delimited value (.bytes number content) := by
  intro rest
  have hread : readDelimited (.ofBytes (value ++ rest)) = .ok (content, .ofBytes rest) :=
    readDelimited_eq_ok_iff.2 ⟨value, rfl, h⟩
  simp only [readValue, expect_self, hread, ok_mapError_bind]
  rfl

theorem saysValue_message {read : MessageReader} {t : Schema} {content : List UInt8}
    {rs : List Record} (h : Delimited value content) (hread : read.Says t content rs) :
    SaysValue (some read) number (.message t) .delimited value (.message number rs) := by
  intro rest
  obtain ⟨length, hlength, rfl⟩ := h
  have hnumber : readNumber (.ofBytes (length ++ content ++ rest)) =
      .ok (content.length, .ofBytes (content ++ rest)) :=
    readNumber_eq_ok_iff.2 ⟨length, by simp, hlength⟩
  have hsize : (Input.ofBytes (content ++ rest)).size = content.length + rest.length := by simp
  have hfits : ¬ (Input.ofBytes (content ++ rest)).size < content.length := by omega
  simp only [readValue, expect_self, hnumber, ok_mapError_bind, if_neg hfits]
  rw [hsize, Nat.add_sub_cancel_left, hread rest]
  rfl

end

/-- Messages inside say something, or there are none. -/
def SaysInner (nested : Option MessageReader) (Inner : Schema → List UInt8 → Prop) : Prop :=
  match nested with
  | none => ∀ t content, ¬ Inner t content
  | some read => ∀ t content, Inner t content → ∃ rs, read.Says t content rs

/-- Every value of a shape says something, if the messages inside do. -/
theorem exists_saysValue {nested : Option MessageReader} {Inner : Schema → List UInt8 → Prop}
    (h : SaysInner nested Inner) (number : Nat) {shape : Shape} {w : WireType}
    {value : List UInt8} (hv : Shaped Inner shape w value) :
    ∃ r, r.number = number ∧ SaysValue nested number shape w value r := by
  cases shape with
  | word =>
    obtain ⟨rfl, n, hn⟩ := hv
    exact ⟨_, rfl, saysValue_word hn⟩
  | text =>
    obtain ⟨rfl, text, htext⟩ := hv
    exact ⟨_, rfl, saysValue_text htext⟩
  | bytes =>
    obtain ⟨rfl, content, hcontent⟩ := hv
    exact ⟨_, rfl, saysValue_bytes hcontent⟩
  | message t =>
    obtain ⟨rfl, content, hcontent, hinner⟩ := hv
    cases nested with
    | none => exact absurd hinner (h t content)
    | some read =>
      obtain ⟨rs, hread⟩ := h t content hinner
      exact ⟨_, rfl, saysValue_message hcontent hread⟩

/-! ## Fields -/

/-- In front of anything, this field is read as this record, or skipped. -/
def SaysField (readOne : Input → Except DecodeError (Option Record × Input))
    (field : List UInt8) (r : Option Record) : Prop :=
  ∀ rest, readOne (.ofBytes (field ++ rest)) = .ok (r, .ofBytes rest)

section

variable {nested : Option MessageReader} {levels number : Nat} {s : Schema} {w : WireType}
  {key value : List UInt8}

/-- A field of the schema says what its value says. -/
theorem saysField_known {f : Wire.Field} {r : Record} (hkey : Key key number w)
    (hf : s.field? number = some f) (hv : SaysValue nested number f.shape w value r) :
    SaysField (readField nested levels s) (key ++ value) (some r) := by
  intro rest
  have hread : readKey (.ofBytes (key ++ value ++ rest)) =
      .ok (number, w, .ofBytes (value ++ rest)) :=
    readKey_eq_ok_iff.2 ⟨key, by simp, hkey⟩
  simp only [readField, hread, ok_mapError_bind, hf, hv rest]
  rfl

/-- Any other field says nothing. -/
theorem saysField_unknown (hkey : Key key number w) (hf : s.field? number = none)
    (hv : Skipped levels number w value) :
    SaysField (readField nested levels s) (key ++ value) none := by
  intro rest
  have hread : readKey (.ofBytes (key ++ value ++ rest)) =
      .ok (number, w, .ofBytes (value ++ rest)) :=
    readKey_eq_ok_iff.2 ⟨key, by simp, hkey⟩
  have hskip : skipValue levels number w (.ofBytes (value ++ rest)) = .ok (.ofBytes rest) :=
    (skips_skipValue levels number w _ _).2 ⟨value, rfl, hv⟩
  simp only [readField, hread, ok_mapError_bind, hf, hskip]
  rfl

end

/-- Every field of the grammar says something, if the messages inside do. -/
theorem exists_saysField {nested : Option MessageReader} {Inner : Schema → List UInt8 → Prop}
    (h : SaysInner nested Inner) {levels : Nat} {s : Schema} {field : List UInt8}
    (hfield : Grammar.Field (Admitted Inner levels s) field) :
    ∃ r, SaysField (readField nested levels s) field r := by
  obtain @⟨key, value, number, w, hkey, hv⟩ := hfield
  simp only [Admitted] at hv
  split at hv
  · next f hf =>
    obtain ⟨r, -, hr⟩ := exists_saysValue h number hv
    exact ⟨some r, saysField_known hkey hf hr⟩
  · next hf => exact ⟨none, saysField_unknown hkey hf hv⟩

/-! ## Fields one after the other -/

/-- The reader takes at least a byte. -/
def Advances (readOne : Input → Except DecodeError (Option Record × Input)) : Prop :=
  ∀ i r j, readOne i = .ok (r, j) → j.size < i.size

theorem ReadsField.advances {readOne : Input → Except DecodeError (Option Record × Input)}
    {V : Values} (h : ReadsField readOne V) : Advances readOne := by
  intro i r j hone
  obtain ⟨field, hi, hfield⟩ := (h i j).1 ⟨r, hone⟩
  have hpos := hfield.length_pos
  have hsize : i.size = field.length + j.size := by simp [i.size_eq, j.size_eq, hi]
  omega

/-- In front of anything, these bytes are read as these records, field by field. -/
inductive Reads (readOne : Input → Except DecodeError (Option Record × Input)) :
    List UInt8 → List Record → Prop where
  | nil : Reads readOne [] []
  | cons {field rest : List UInt8} {r : Option Record} {rs : List Record} :
      SaysField readOne field r → Reads readOne rest rs →
      Reads readOne (field ++ rest) (r.toList ++ rs)

section

variable {readOne : Input → Except DecodeError (Option Record × Input)} {stop fuel : Nat}
  {i j : Input} {done rs : List Record}

theorem readFields_step {r : Option Record} (hstop : stop < i.size)
    (hone : readOne i = .ok (r, j)) :
    readFields readOne stop (fuel + 1) i done =
      readFields readOne stop fuel j (r.toList ++ done) := by
  simp only [readFields, if_pos hstop, hone]

theorem readFields_error {e : DecodeError} (hstop : stop < i.size) (hone : readOne i = .error e) :
    readFields readOne stop (fuel + 1) i done = .error e := by
  simp only [readFields, if_pos hstop, hone]

/-- Fuel that lasts makes no difference, and what was read before stands before what is
read now. -/
theorem readFields_eq (hadvances : Advances readOne) (hfuel : i.size ≤ fuel) (done : List Record) :
    readFields readOne stop fuel i done =
      (readFields readOne stop i.size i []).map fun p => (done.reverse ++ p.1, p.2) := by
  obtain ⟨n, hn⟩ : ∃ n, i.size = n := ⟨_, rfl⟩
  induction n using Nat.strongRecOn generalizing i fuel done with
  | _ n ih =>
    by_cases hlt : stop < i.size
    · obtain ⟨fuel, rfl⟩ : ∃ k, fuel = k + 1 := ⟨fuel - 1, by omega⟩
      obtain ⟨m, hm⟩ : ∃ m, i.size = m + 1 := ⟨i.size - 1, by omega⟩
      rw [hm]
      cases hone : readOne i with
      | error e => rw [readFields_error hlt hone, readFields_error hlt hone]; rfl
      | ok p =>
        obtain ⟨r, j⟩ := p
        have hj : j.size < i.size := hadvances i r j hone
        rw [readFields_step hlt hone, readFields_step hlt hone,
          ih j.size (by omega) (by omega) (r.toList ++ done) rfl,
          ih j.size (by omega) (by omega) (r.toList ++ []) rfl]
        cases readFields readOne stop j.size j [] <;> cases r <;> simp [Except.map]
    · by_cases heq : i.size = stop
      · rw [readFields_of_size_eq heq, readFields_of_size_eq heq]
        simp [Except.map]
      · have hpast : i.size < stop := by omega
        rw [readFields_of_size_lt hpast, readFields_of_size_lt hpast]
        rfl

/-- Fields that were read are left behind. -/
theorem readFields_of_reads (hadvances : Advances readOne) {bytes : List UInt8}
    (h : Reads readOne bytes rs) (hi : i.bytes = bytes ++ j.bytes) (hstop : stop ≤ j.size) :
    readFields readOne stop i.size i [] =
      (readFields readOne stop j.size j []).map fun p => (rs ++ p.1, p.2) := by
  induction h generalizing i with
  | nil =>
    obtain rfl : i = j := Input.ext hi
    cases readFields readOne stop i.size i [] <;> rfl
  | @cons field rest r rs hfield _ ih =>
    obtain ⟨k, hk⟩ : ∃ k : Input, k.bytes = rest ++ j.bytes := ⟨.ofBytes (rest ++ j.bytes), rfl⟩
    have hone : readOne i = .ok (r, k) := by
      have h := hfield k.bytes
      rw [Input.ofBytes_bytes, hk, ← List.append_assoc, ← hi, Input.ofBytes_bytes] at h
      exact h
    have hlt : k.size < i.size := hadvances i r k hone
    have hle : j.size ≤ k.size := by
      rw [j.size_eq, k.size_eq, hk, List.length_append]
      omega
    obtain ⟨m, hm⟩ : ∃ m, i.size = m + 1 := ⟨i.size - 1, by omega⟩
    have hnow : stop < i.size := by omega
    rw [hm, readFields_step hnow hone, readFields_eq hadvances (by omega), ih hk]
    cases readFields readOne stop j.size j [] <;> cases r <;> simp [Except.map]

end

/-! ## Messages -/

/-- Reads a field of a message within so many levels. -/
def fieldReader : (levels : Nat) → (s : Schema) → Input → Except DecodeError (Option Record × Input)
  | 0, s => readField none 0 s
  | levels + 1, s => readField (some (readMessage levels)) (levels + 1) s

theorem readMessage_eq (levels : Nat) (s : Schema) (stop : Nat) (i : Input) :
    readMessage levels s stop i = readFields (fieldReader levels s) stop i.size i [] := by
  cases levels <;> rfl

theorem readsField_fieldReader (levels : Nat) (s : Schema) :
    ReadsField (fieldReader levels s) (Value levels s) := by
  cases levels with
  | zero =>
    have hinner : ReadsInner none fun _ _ => False := fun _ _ => id
    exact readsField_readField hinner 0 s
  | succ levels =>
    have hinner : ReadsInner (some (readMessage levels)) (Message levels) :=
      (readsFields_readMessage levels).reads
    exact readsField_readField hinner (levels + 1) s

theorem advances_fieldReader (levels : Nat) (s : Schema) : Advances (fieldReader levels s) :=
  (readsField_fieldReader levels s).advances

/-- Bytes that are read field by field are a message in front of anything. -/
theorem says_of_reads {levels : Nat} {t : Schema} {content : List UInt8} {rs : List Record}
    (h : Reads (fieldReader levels t) content rs) : (readMessage levels).Says t content rs := by
  intro rest
  have hread := readFields_of_reads (advances_fieldReader levels t) h
    (i := .ofBytes (content ++ rest)) (j := .ofBytes rest) rfl (Nat.le_refl _)
  rw [readFields_of_size_eq rfl] at hread
  rw [readMessage_eq]
  simpa [Except.map] using hread

/-- Fields that say something each say something together. -/
theorem exists_reads {readOne : Input → Except DecodeError (Option Record × Input)} {V : Values}
    (h : ∀ field, Grammar.Field V field → ∃ r, SaysField readOne field r) {bytes : List UInt8}
    (hfields : Fields V bytes) : ∃ rs, Reads readOne bytes rs := by
  induction hfields with
  | nil => exact ⟨[], .nil⟩
  | cons hfield _ ih =>
    obtain ⟨r, hr⟩ := h _ hfield
    obtain ⟨rs, hrs⟩ := ih
    exact ⟨r.toList ++ rs, .cons hr hrs⟩

/-- The messages inside say something, if their fields do. -/
theorem saysInner_readMessage {levels : Nat}
    (h : ∀ t field, Grammar.Field (Value levels t) field →
      ∃ r, SaysField (fieldReader levels t) field r) :
    SaysInner (some (readMessage levels)) (Message levels) := by
  intro t content hcontent
  obtain ⟨rs, hrs⟩ := exists_reads (h t) hcontent
  exact ⟨rs, says_of_reads hrs⟩

/-- Every field of a message says something. -/
theorem exists_saysField_fieldReader (levels : Nat) (s : Schema) (field : List UInt8)
    (hfield : Grammar.Field (Value levels s) field) :
    ∃ r, SaysField (fieldReader levels s) field r := by
  induction levels generalizing s field with
  | zero =>
    have hinner : SaysInner none fun _ _ => False := fun _ _ => id
    exact exists_saysField hinner hfield
  | succ levels ih => exact exists_saysField (saysInner_readMessage ih) hfield

/-- Every message is read field by field. -/
theorem exists_reads_of_message {levels : Nat} {s : Schema} {bytes : List UInt8}
    (h : Message levels s bytes) : ∃ rs, Reads (fieldReader levels s) bytes rs :=
  exists_reads (exists_saysField_fieldReader levels s) h

/-! ## Whole messages -/

/-- The whole input is read field by field. -/
theorem scan_of_reads {s : Schema} {bytes : List UInt8} {rs : List Record}
    (h : Reads (fieldReader maxLevels s) bytes rs) : scan s bytes = .ok rs := by
  have hread := says_of_reads h []
  rw [List.append_nil, List.length_nil] at hread
  rw [scan, hread]
  rfl

/-- What stands behind a message is read as if it stood alone. -/
theorem scan_append {s : Schema} {a : List UInt8} {rs : List Record} (h : scan s a = .ok rs)
    (b : List UInt8) : scan s (a ++ b) = (scan s b).map (rs ++ ·) := by
  obtain ⟨ts, hts⟩ := exists_reads_of_message ((scan_isOk_iff s a).1 ⟨rs, h⟩)
  obtain rfl : rs = ts := Except.ok.inj (h.symm.trans (scan_of_reads hts))
  have hread := readFields_of_reads (advances_fieldReader maxLevels s) hts
    (i := .ofBytes (a ++ b)) (j := .ofBytes b) rfl (Nat.zero_le _)
  simp only [scan, readMessage_eq, hread]
  cases readFields (fieldReader maxLevels s) 0 (Input.ofBytes b).size (.ofBytes b) [] <;> rfl

end FazClient.Wire
