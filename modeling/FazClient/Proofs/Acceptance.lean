import FazClient.Message
import FazClient.Proofs.Grammar

/-!
# FazClient.Proofs.Acceptance

The decoder accepts just the messages of the grammar.  A reader compares lengths with
all that is left of its input, and only later with the end of the message around it;
the two agree because every reader is exact about the bytes that it takes.

* **values** — `skipValue` and `readValue` take just the values of the grammar
  (`skips_skipValue`, `readValue_isOk_iff`);
* **fields** — `readFields` goes on behind the fields that it has read
  (`readFields_append`), so that it takes all of them up to its end
  (`readFields_isOk_iff`);
* **messages** — `readMessage` takes just the messages (`readsFields_readMessage`), and
  fails where a field runs past the end of a nested one (`readMessage_of_overruns`);
* `decoder_accepts_its_grammar` — both, for the decoder as a whole.
-/

namespace FazClient.Wire

open Grammar

/-! ## Skipped values -/

theorem Grammar.Number.length_pos {bytes : List UInt8} {n : Nat} (h : Number bytes n) :
    0 < bytes.length := by
  obtain ⟨h, -, -⟩ := h
  cases h <;> simp

theorem Grammar.Field.length_pos {V : Values} {field : List UInt8} (h : Field V field) :
    0 < field.length := by
  obtain ⟨hkey, -⟩ := h
  have hpos := hkey.spelled.length_pos
  simp only [List.length_append]
  omega

/-- The function skips just these values. -/
def Skips (skip : Nat → WireType → Input → Except Fault Input) (V : Values) : Prop :=
  ∀ number w i j, skip number w i = .ok j ↔ ∃ value, i.bytes = value ++ j.bytes ∧ V number w value

/-- A group is skipped up to its end key. -/
theorem skipGroup_eq_ok_iff {skip : Nat → WireType → Input → Except Fault Input} {V : Values}
    (hskip : Skips skip V) (hend : ∀ number value, ¬ V number .endGroup value) {number fuel : Nat}
    {i j : Input} (hfuel : i.size ≤ fuel) :
    skipGroup skip number fuel i = .ok j ↔
      ∃ fields close, i.bytes = fields ++ close ++ j.bytes ∧ Fields V fields ∧
        Key close number .endGroup := by
  constructor
  · -- Induction on the fuel: a run that ends has read an end key, however much was left.
    intro h
    clear hfuel
    induction fuel generalizing i with
    | zero => contradiction
    | succ fuel ih =>
      rw [skipGroup] at h
      split at h
      · contradiction
      · next n w rest hread =>
        obtain ⟨key, hi, hkey⟩ := readKey_eq_ok_iff.1 hread
        split at h
        · next hw =>
          subst hw
          split at h
          · next hn =>
            cases h
            exact ⟨[], key, by simp [hi], .nil, hn ▸ hkey⟩
          · contradiction
        · split at h
          · contradiction
          · next rest' hvalue =>
            obtain ⟨value, hrest, hv⟩ := (hskip _ _ _ _).1 hvalue
            obtain ⟨fields, close, hrest', hfields, hclose⟩ := ih h
            exact ⟨key ++ value ++ fields, close, by simp [hi, hrest, hrest'],
              .cons (.mk hkey hv) hfields, hclose⟩
  · -- Induction on the fields: each takes a byte at least, so the fuel lasts.
    rintro ⟨fields, close, hi, hfields, hclose⟩
    induction hfields generalizing fuel i with
    | nil =>
      have hread : readKey i = .ok (number, .endGroup, j) :=
        readKey_eq_ok_iff.2 ⟨close, by simpa using hi, hclose⟩
      have hpos := hclose.spelled.length_pos
      have hsize : i.size = close.length + j.bytes.length := by simp [i.size_eq, hi]
      cases fuel with
      | zero => omega
      | succ fuel => simp [skipGroup, hread]
    | @cons field rest hfield _ ih =>
      have hpos := hfield.length_pos
      obtain @⟨key, value, n, w, hkey, hv⟩ := hfield
      have hread : readKey i = .ok (n, w, .ofBytes (value ++ rest ++ close ++ j.bytes)) :=
        readKey_eq_ok_iff.2 ⟨key, by simp [hi], hkey⟩
      have hvalue : skip n w (.ofBytes (value ++ rest ++ close ++ j.bytes)) =
          .ok (.ofBytes (rest ++ close ++ j.bytes)) :=
        (hskip _ _ _ _).2 ⟨value, by simp, hv⟩
      have hw : w ≠ .endGroup := by
        rintro rfl
        exact hend n value hv
      have hsize : i.size = (key ++ value).length + (rest ++ close ++ j.bytes).length := by
        simp [i.size_eq, hi]
        omega
      cases fuel with
      | zero => omega
      | succ fuel =>
        have hle : (Input.ofBytes (rest ++ close ++ j.bytes)).size ≤ fuel := by
          simp only [Input.size_ofBytes]
          omega
        have hlater := ih hle rfl
        simp only [skipGroup, hread, if_neg hw, hvalue, hlater]

/-- The values that are skipped are those of the grammar. -/
theorem skips_skipValue (levels : Nat) : Skips (skipValue levels) (Skipped levels) := by
  induction levels with
  | zero =>
    intro number w i j
    simp [skipValue, Skipped]
  | succ levels ih =>
    intro number w i j
    cases w with
    | varint =>
      simp only [skipValue, Skipped, map_eq_ok_iff, Prod.exists, readNumber_eq_ok_iff]
      constructor
      · rintro ⟨n, j', ⟨bytes, hi, hn⟩, rfl⟩
        exact ⟨bytes, hi, n, hn⟩
      · rintro ⟨bytes, hi, n, hn⟩
        exact ⟨n, j, ⟨bytes, hi, hn⟩, rfl⟩
    | fixed64 =>
      simp [skipValue, Skipped, map_eq_ok_iff, readBytes_eq_ok_iff]
    | delimited =>
      simp only [skipValue, Skipped, map_eq_ok_iff, Prod.exists, readDelimited_eq_ok_iff]
      constructor
      · rintro ⟨content, j', ⟨bytes, hi, hc⟩, rfl⟩
        exact ⟨bytes, hi, content, hc⟩
      · rintro ⟨bytes, hi, content, hc⟩
        exact ⟨content, j, ⟨bytes, hi, hc⟩, rfl⟩
    | startGroup =>
      have hend : ∀ number value, ¬ Skipped levels number .endGroup value := by
        cases levels <;> simp [Skipped]
      simp only [skipValue, Skipped, skipGroup_eq_ok_iff ih hend (Nat.le_refl _)]
      constructor
      · rintro ⟨fields, close, hi, hfields, hclose⟩
        exact ⟨fields ++ close, hi, fields, close, hfields, hclose, rfl⟩
      · rintro ⟨bytes, hi, fields, close, hfields, hclose, rfl⟩
        exact ⟨fields, close, hi, hfields, hclose⟩
    | endGroup => simp [skipValue, Skipped]
    | fixed32 =>
      simp [skipValue, Skipped, map_eq_ok_iff, readBytes_eq_ok_iff]

/-! ## Values of the schema -/

theorem expect_eq_ok_iff {expected actual : WireType} {u : Unit} :
    expect expected actual = .ok u ↔ actual = expected := by
  rw [expect]
  split <;> simp_all

/-- The function reads just these messages, up to the end that it is told. -/
def MessageReader.Reads (read : MessageReader) (M : Schema → List UInt8 → Prop) : Prop :=
  ∀ t stop i j, (∃ rs, read t stop i = .ok (rs, j)) ↔
    j.size = stop ∧ ∃ content, i.bytes = content ++ j.bytes ∧ M t content

/-- Messages inside are read by this function, or there are none. -/
def ReadsInner (nested : Option MessageReader) (Inner : Schema → List UInt8 → Prop) : Prop :=
  match nested with
  | none => ∀ t content, ¬ Inner t content
  | some read => read.Reads Inner

/-- The values of a shape are those of the grammar, if the messages inside are. -/
theorem readValue_isOk_iff {nested : Option MessageReader} {Inner : Schema → List UInt8 → Prop}
    (h : ReadsInner nested Inner) {number : Nat} {shape : Shape} {w : WireType} {i j : Input} :
    (∃ r, readValue nested number shape w i = .ok (r, j)) ↔
      ∃ value, i.bytes = value ++ j.bytes ∧ Shaped Inner shape w value := by
  cases shape with
  | word =>
    simp only [readValue, Shaped, bind_eq_ok_iff, mapError_eq_ok_iff, expect_eq_ok_iff, Prod.exists,
      readNumber_eq_ok_iff]
    constructor
    · rintro ⟨r, -, hw, n, rest, ⟨bytes, hi, hn⟩, hr⟩
      cases hr
      exact ⟨bytes, hi, hw, n, hn⟩
    · rintro ⟨bytes, hi, hw, n, hn⟩
      exact ⟨_, (), hw, n, j, ⟨bytes, hi, hn⟩, rfl⟩
  | text =>
    simp only [readValue, Shaped, bind_eq_ok_iff, mapError_eq_ok_iff, expect_eq_ok_iff, Prod.exists,
      readDelimited_eq_ok_iff]
    constructor
    · rintro ⟨r, -, hw, content, rest, ⟨bytes, hi, hc⟩, hr⟩
      split at hr
      · next text htext =>
        cases hr
        rw [← Utf8.decode?_eq_some_iff.1 htext] at hc
        exact ⟨bytes, hi, hw, text, hc⟩
      · cases hr
    · rintro ⟨bytes, hi, hw, text, hc⟩
      refine ⟨.text number text, (), hw, _, j, ⟨bytes, hi, hc⟩, ?_⟩
      simp only [Utf8.decode?_encode]
      rfl
  | bytes =>
    simp only [readValue, Shaped, bind_eq_ok_iff, mapError_eq_ok_iff, expect_eq_ok_iff, Prod.exists,
      readDelimited_eq_ok_iff]
    constructor
    · rintro ⟨r, -, hw, content, rest, ⟨bytes, hi, hc⟩, hr⟩
      cases hr
      exact ⟨bytes, hi, hw, content, hc⟩
    · rintro ⟨bytes, hi, hw, content, hc⟩
      exact ⟨_, (), hw, content, j, ⟨bytes, hi, hc⟩, rfl⟩
  | message t =>
    cases nested with
    | none =>
      simp only [readValue, Shaped, bind_eq_ok_iff]
      constructor
      · rintro ⟨r, -, -, hr⟩
        cases hr
      · rintro ⟨bytes, -, -, content, -, hinner⟩
        exact absurd hinner (h t content)
    | some read =>
      simp only [readValue, Shaped, bind_eq_ok_iff, mapError_eq_ok_iff, expect_eq_ok_iff,
        Prod.exists, readNumber_eq_ok_iff]
      constructor
      · rintro ⟨r, -, hw, n, rest, ⟨length, hi, hn⟩, hr⟩
        split at hr
        · cases hr
        · next hle =>
          obtain ⟨⟨rs, j'⟩, hread, hr⟩ := bind_eq_ok_iff.1 hr
          cases hr
          obtain ⟨hstop, content, hrest, hinner⟩ := (h t _ _ _).1 ⟨rs, hread⟩
          -- The length is that of the content, since both end where the message does.
          obtain rfl : n = content.length := by
            have hsize : rest.size = content.length + j'.size := by
              simp [rest.size_eq, j'.size_eq, hrest]
            omega
          exact ⟨length ++ content, by simp [hi, hrest], hw, content, ⟨length, hn, rfl⟩, hinner⟩
      · rintro ⟨bytes, hi, hw, content, ⟨length, hn, rfl⟩, hinner⟩
        obtain ⟨rs, hread⟩ := (h t j.size (.ofBytes (content ++ j.bytes)) j).2
          ⟨rfl, content, rfl, hinner⟩
        refine ⟨.message number rs, (), hw, content.length, .ofBytes (content ++ j.bytes),
          ⟨length, by simp [hi], hn⟩, ?_⟩
        have hsize : (Input.ofBytes (content ++ j.bytes)).size = content.length + j.size := by
          simp [j.size_eq]
        rw [hsize, if_neg (by omega), Nat.add_sub_cancel_left, hread]
        rfl

/-! ## Fields -/

/-- The function reads just the fields of these values, whether it keeps them or not. -/
def ReadsField (readOne : Input → Except DecodeError (Option Record × Input)) (V : Values) : Prop :=
  ∀ i j, (∃ r, readOne i = .ok (r, j)) ↔ ∃ field, i.bytes = field ++ j.bytes ∧ Grammar.Field V field

/-- The fields of a message are those of the grammar, if the messages inside are. -/
theorem readsField_readField {nested : Option MessageReader}
    {Inner : Schema → List UInt8 → Prop} (h : ReadsInner nested Inner) (levels : Nat) (s : Schema) :
    ReadsField (readField nested levels s) (Admitted Inner levels s) := by
  intro i j
  simp only [readField, bind_eq_ok_iff, mapError_eq_ok_iff, Prod.exists, readKey_eq_ok_iff]
  constructor
  · rintro ⟨r, number, w, rest, ⟨key, hi, hkey⟩, hr⟩
    split at hr
    · next f hf =>
      obtain ⟨⟨value, rest'⟩, hread, hr⟩ := bind_eq_ok_iff.1 hr
      cases hr
      obtain ⟨bytes, hrest, hv⟩ := (readValue_isOk_iff h).1 ⟨_, mapError_eq_ok_iff.1 hread⟩
      refine ⟨key ++ bytes, by simp [hi, hrest], .mk hkey ?_⟩
      simpa only [Admitted, hf] using hv
    · next hf =>
      obtain ⟨rest', hskip, hr⟩ := bind_eq_ok_iff.1 hr
      cases hr
      obtain ⟨bytes, hrest, hv⟩ := (skips_skipValue levels _ _ _ _).1 (mapError_eq_ok_iff.1 hskip)
      refine ⟨key ++ bytes, by simp [hi, hrest], .mk hkey ?_⟩
      simpa only [Admitted, hf] using hv
  · rintro ⟨_, hi, @⟨key, bytes, number, w, hkey, hv⟩⟩
    rw [List.append_assoc] at hi
    simp only [Admitted] at hv
    split at hv
    · next f hf =>
      obtain ⟨r, hread⟩ : ∃ r, readValue nested number f.shape w (.ofBytes (bytes ++ j.bytes)) =
          .ok (r, j) :=
        (readValue_isOk_iff h).2 ⟨bytes, rfl, hv⟩
      refine ⟨some r, number, w, .ofBytes (bytes ++ j.bytes), ⟨key, hi, hkey⟩, ?_⟩
      simp only [hf, hread, ok_mapError_bind]
      rfl
    · next hf =>
      have hskip := (skips_skipValue levels number w (.ofBytes (bytes ++ j.bytes)) j).2
        ⟨bytes, rfl, hv⟩
      refine ⟨none, number, w, .ofBytes (bytes ++ j.bytes), ⟨key, hi, hkey⟩, ?_⟩
      simp only [hf, hskip, ok_mapError_bind]
      rfl

section

variable {readOne : Input → Except DecodeError (Option Record × Input)} {V : Values}

/-- Fields before the end are read, and reading goes on behind them. -/
theorem readFields_append (h : ReadsField readOne V) {bytes : List UInt8} (hfields : Fields V bytes)
    {stop fuel : Nat} {i j : Input} (hi : i.bytes = bytes ++ j.bytes) (hstop : stop ≤ j.size)
    (hfuel : i.size ≤ fuel) (done : List Record) :
    ∃ fuel' done', j.size ≤ fuel' ∧
      readFields readOne stop fuel i done = readFields readOne stop fuel' j done' := by
  induction hfields generalizing fuel i done with
  | nil =>
    obtain rfl : i = j := Input.ext hi
    exact ⟨fuel, done, hfuel, rfl⟩
  | @cons field rest hfield _ ih =>
    have hpos := hfield.length_pos
    have hsize : i.size = field.length + (rest.length + j.size) := by
      simp [i.size_eq, j.size_eq, hi]
    obtain ⟨r, hread⟩ := (h i (.ofBytes (rest ++ j.bytes))).2 ⟨field, by simp [hi], hfield⟩
    cases fuel with
    | zero => omega
    | succ fuel =>
      have hlater : (Input.ofBytes (rest ++ j.bytes)).size ≤ fuel := by
        simp [← j.size_eq]
        omega
      simp only [readFields, if_pos (show stop < i.size by omega), hread]
      exact ih rfl hlater (r.toList ++ done)

/-- What is read are fields, up to the end. -/
theorem fields_of_readFields (h : ReadsField readOne V) {stop fuel : Nat} {i j : Input}
    {done rs : List Record} (hread : readFields readOne stop fuel i done = .ok (rs, j)) :
    j.size = stop ∧ ∃ bytes, i.bytes = bytes ++ j.bytes ∧ Fields V bytes := by
  induction fuel generalizing i done with
  | zero =>
    rw [readFields] at hread
    split at hread
    · next hsize =>
      cases hread
      exact ⟨hsize, [], rfl, .nil⟩
    · contradiction
  | succ fuel ih =>
    rw [readFields] at hread
    split at hread
    · split at hread
      · contradiction
      · next r rest hone =>
        obtain ⟨field, hi, hfield⟩ := (h i rest).1 ⟨r, hone⟩
        obtain ⟨hstop, bytes, hrest, hfields⟩ := ih hread
        exact ⟨hstop, field ++ bytes, by simp [hi, hrest], .cons hfield hfields⟩
    · split at hread
      · next hsize =>
        cases hread
        exact ⟨hsize, [], rfl, .nil⟩
      · contradiction

/-- At the end nothing more is read. -/
theorem readFields_of_size_eq {stop : Nat} {i : Input} (h : i.size = stop) (fuel : Nat)
    (done : List Record) : readFields readOne stop fuel i done = .ok (done.reverse, i) := by
  cases fuel <;> simp [readFields, h]

/-- Behind the end it is too late. -/
theorem readFields_of_size_lt {stop : Nat} {i : Input} (h : i.size < stop) (fuel : Nat)
    (done : List Record) : readFields readOne stop fuel i done = .error (.of .overrun) := by
  have hne : i.size ≠ stop := by omega
  have hle : ¬ stop < i.size := by omega
  cases fuel <;> simp [readFields, hne, hle]

/-- Just the fields up to the end are read. -/
theorem readFields_isOk_iff (h : ReadsField readOne V) {stop : Nat} {i j : Input} :
    (∃ rs, readFields readOne stop i.size i [] = .ok (rs, j)) ↔
      j.size = stop ∧ ∃ bytes, i.bytes = bytes ++ j.bytes ∧ Fields V bytes := by
  constructor
  · rintro ⟨rs, hread⟩
    exact fields_of_readFields h hread
  · rintro ⟨hstop, bytes, hi, hfields⟩
    obtain ⟨fuel, done, -, heq⟩ :=
      readFields_append h hfields hi (Nat.le_of_eq hstop.symm) (Nat.le_refl _) []
    exact ⟨_, heq.trans (readFields_of_size_eq hstop fuel done)⟩

end

/-! ## Messages -/

/-- The function reads messages field by field, each of them just as the grammar has it. -/
def MessageReader.ReadsFields (read : MessageReader) (levels : Nat) : Prop :=
  ∀ s, ∃ readOne, ReadsField readOne (Value levels s) ∧
    ∀ stop i, read s stop i = readFields readOne stop i.size i []

theorem MessageReader.ReadsFields.reads {read : MessageReader} {levels : Nat}
    (h : read.ReadsFields levels) : read.Reads (Message levels) := by
  intro t stop i j
  obtain ⟨readOne, hreads, heq⟩ := h t
  rw [heq]
  exact readFields_isOk_iff hreads

/-- Messages are read field by field: those inside on one level less. -/
theorem readsFields_readMessage (levels : Nat) : (readMessage levels).ReadsFields levels := by
  induction levels with
  | zero =>
    intro s
    have hnone : ReadsInner none fun _ _ => False := fun _ _ => id
    exact ⟨readField none 0 s, readsField_readField hnone 0 s, fun _ _ => rfl⟩
  | succ levels ih =>
    intro s
    have hsome : ReadsInner (some (readMessage levels)) (Message levels) := ih.reads
    exact ⟨readField (some (readMessage levels)) (levels + 1) s,
      readsField_readField hsome (levels + 1) s, fun _ _ => rfl⟩

/-- The whole input is read just if it is a message. -/
theorem scan_isOk_iff (s : Schema) (bytes : List UInt8) :
    (∃ rs, scan s bytes = .ok rs) ↔ Message maxLevels s bytes := by
  have h := (readsFields_readMessage maxLevels).reads s 0 (.ofBytes bytes)
  simp only [scan, map_eq_ok_iff, Prod.exists]
  constructor
  · rintro ⟨-, rs, j, hread, -⟩
    obtain ⟨hsize, content, hbytes, hmessage⟩ := (h j).1 ⟨rs, hread⟩
    have hj : j.bytes = [] := by
      rw [← List.length_eq_zero_iff, ← j.size_eq, hsize]
    simp only [Input.bytes_ofBytes, hj, List.append_nil] at hbytes
    rwa [hbytes]
  · intro hmessage
    obtain ⟨rs, hread⟩ := (h (.ofBytes [])).2 ⟨rfl, bytes, by simp, hmessage⟩
    exact ⟨rs, rs, _, hread, rfl⟩

/-! ## Fields that run past the end of their message -/

/-- A fault inside a nested message is a fault of the message around it. -/
theorem readMessage_of_inner {levels number n : Nat} {s t : Schema} {f : Wire.Field}
    {before key length tail : List UInt8} {e : DecodeError}
    (hbefore : Message (levels + 1) s before) (hkey : Key key number .delimited)
    (hf : s.field? number = some f) (hshape : f.shape = .message t) (hlength : Number length n)
    (hn : n ≤ tail.length)
    (hinner : readMessage levels t (tail.length - n) (.ofBytes tail) = .error e)
    {stop : Nat} (hstop : stop ≤ tail.length) :
    ∃ e', e'.fault = e.fault ∧
      readMessage (levels + 1) s stop (.ofBytes (before ++ key ++ length ++ tail)) = .error e' := by
  let readOne := readField (some (readMessage levels)) (levels + 1) s
  have hsome : ReadsInner (some (readMessage levels)) (Message levels) :=
    (readsFields_readMessage levels).reads
  have hreads : ReadsField readOne (Value (levels + 1) s) :=
    readsField_readField hsome (levels + 1) s
  have hone : readOne (.ofBytes (key ++ length ++ tail)) = .error (e.inField s f) := by
    have hread : readKey (.ofBytes (key ++ length ++ tail)) =
        .ok (number, .delimited, .ofBytes (length ++ tail)) :=
      readKey_eq_ok_iff.2 ⟨key, by simp, hkey⟩
    have hnumber : readNumber (.ofBytes (length ++ tail)) = .ok (n, .ofBytes tail) :=
      readNumber_eq_ok_iff.2 ⟨length, rfl, hlength⟩
    have hle : ¬ tail.length < n := by omega
    simp only [readOne, readField, hread, ok_mapError_bind, hf, hshape, readValue, expect_self,
      hnumber, Input.size_ofBytes, if_neg hle, hinner]
    rfl
  have hpos := hkey.spelled.length_pos
  have hlt : stop < (Input.ofBytes (key ++ length ++ tail)).size := by
    simp only [Input.size_ofBytes, List.length_append]
    omega
  have hsplit : (Input.ofBytes (before ++ key ++ length ++ tail)).bytes =
      before ++ (Input.ofBytes (key ++ length ++ tail)).bytes := by
    simp
  obtain ⟨fuel, done, hfuel, heq⟩ :=
    readFields_append hreads hbefore hsplit (Nat.le_of_lt hlt) (Nat.le_refl _) []
  refine ⟨e.inField s f, rfl, heq.trans ?_⟩
  cases fuel with
  | zero => omega
  | succ fuel => simp only [readFields, if_pos hlt, hone]

/-- A field that runs past the end of its message is a fault. -/
theorem readMessage_of_field {levels stop : Nat} {t : Schema} {front field tail : List UInt8}
    (hfront : Message levels t front) (hfield : Grammar.Field (Value levels t) field)
    (hinside : stop < field.length + tail.length) (hpast : tail.length < stop) :
    readMessage levels t stop (.ofBytes (front ++ field ++ tail)) = .error (.of .overrun) := by
  obtain ⟨readOne, hreads, heq⟩ := readsFields_readMessage levels t
  obtain ⟨r, hone⟩ := (hreads (.ofBytes (field ++ tail)) (.ofBytes tail)).2 ⟨field, rfl, hfield⟩
  have hlt : stop < (Input.ofBytes (field ++ tail)).size := by
    simpa using hinside
  have hsplit : (Input.ofBytes (front ++ field ++ tail)).bytes =
      front ++ (Input.ofBytes (field ++ tail)).bytes := by
    simp
  obtain ⟨fuel, done, hfuel, hnext⟩ :=
    readFields_append hreads hfront hsplit (Nat.le_of_lt hlt) (Nat.le_refl _) []
  rw [heq, hnext]
  cases fuel with
  | zero => omega
  | succ fuel =>
    simp only [readFields, if_pos hlt, hone]
    exact readFields_of_size_lt hpast fuel _

/-- A field that runs past the end of a nested message is a fault of the whole message,
whatever follows. -/
theorem readMessage_of_overruns {levels : Nat} {s : Schema} {bytes : List UInt8}
    (h : Overruns levels s bytes) {stop : Nat} {rest : List UInt8} (hstop : stop ≤ rest.length) :
    ∃ e, e.fault = .overrun ∧
      readMessage levels s stop (.ofBytes (bytes ++ rest)) = .error e := by
  induction h generalizing stop rest with
  | @here levels number n s t f before key length front field after hbefore hkey hf hshape hlength
      hfront hfield hstart hend =>
    have hlen : (front ++ field ++ (after ++ rest)).length =
        front.length + field.length + (after ++ rest).length := by
      simp
      omega
    have hinside : (front ++ field ++ (after ++ rest)).length - n <
        field.length + (after ++ rest).length := by omega
    have hpast : (after ++ rest).length < (front ++ field ++ (after ++ rest)).length - n := by
      omega
    have hstop' : stop ≤ (front ++ field ++ (after ++ rest)).length := by
      simp
      omega
    obtain ⟨e, hfault, hread⟩ := readMessage_of_inner hbefore hkey hf hshape hlength (by omega)
      (readMessage_of_field hfront hfield hinside hpast) hstop'
    exact ⟨e, hfault, by simpa using hread⟩
  | @inside levels number s t f before key length content after hbefore hkey hf hshape hlength _
      ih =>
    obtain ⟨e, hfault, hinner⟩ := ih (Nat.le_refl (after ++ rest).length)
    have hend : (content ++ (after ++ rest)).length - content.length = (after ++ rest).length := by
      simp
    have hstop' : stop ≤ (content ++ (after ++ rest)).length := by
      simp
      omega
    obtain ⟨e', hfault', hread⟩ := readMessage_of_inner hbefore hkey hf hshape hlength (by simp)
      (hend.symm ▸ hinner) hstop'
    exact ⟨e', hfault'.trans hfault, by simpa using hread⟩

/-- Input with such a field is refused for that reason. -/
theorem scan_of_overruns {s : Schema} {bytes : List UInt8} (h : Overruns maxLevels s bytes) :
    ∃ e, e.fault = .overrun ∧ scan s bytes = .error e := by
  obtain ⟨e, hfault, hread⟩ := readMessage_of_overruns h (Nat.le_refl ([] : List UInt8).length)
  rw [List.append_nil, List.length_nil] at hread
  refine ⟨e, hfault, ?_⟩
  rw [scan, hread]
  rfl

end FazClient.Wire

namespace FazClient

open Wire

/-! ## The decoder -/

/-- **Acceptance**: bytes are decoded just if they are a message of the schema by the
grammar, with 100 levels at most.  In particular, where a field starts inside a nested
message and runs past its end, the bytes are refused for that reason, even if all the
bytes of the field are there. -/
theorem decoder_accepts_its_grammar (s : Schema) (bytes : List UInt8) :
    ((∃ m, decode s bytes = .ok m) ↔ Grammar.Message 100 s bytes) ∧
      (Grammar.Overruns 100 s bytes →
        ∃ e, e.fault = .overrun ∧ decode s bytes = .error e) := by
  constructor
  · rw [← show maxLevels = 100 from rfl, ← scan_isOk_iff]
    simp only [decode, map_eq_ok_iff]
    constructor
    · rintro ⟨m, rs, hscan, -⟩
      exact ⟨rs, hscan⟩
    · rintro ⟨rs, hscan⟩
      exact ⟨_, rs, hscan, rfl⟩
  · intro h
    obtain ⟨e, hfault, hscan⟩ := scan_of_overruns h
    exact ⟨e, hfault, by rw [decode, hscan]; rfl⟩

/-- A reply whose caw ends one byte before the name in it does, while that byte is there. -/
theorem decoder_accepts_its_grammar_overrun :
    Grammar.Overruns 100 (.payload .cawReply) [10, 3, 10, 2, 97, 98] ∧
      ∃ e, e.fault = .overrun ∧
        decode (.payload .cawReply) [10, 3, 10, 2, 97, 98] = .error e := by
  have hnumber : ∀ b : UInt8, b < 128 → Grammar.Number [b] b.toNat := fun b hb =>
    ⟨.last hb, by simp, Nat.lt_trans b.toNat_lt (by decide)⟩
  have hkey : Grammar.Key [10] 1 .delimited := ⟨hnumber 10 (by decide), by decide, by decide⟩
  have hname : Grammar.Field (Grammar.Value 99 (.payload .caw)) ([10] ++ [2, 97, 98]) :=
    .mk hkey ⟨rfl, "ab", [2], hnumber 2 (by decide), by decide⟩
  have h : Grammar.Overruns 100 (.payload .cawReply) [10, 3, 10, 2, 97, 98] :=
    .here .nil hkey rfl rfl (hnumber 3 (by decide)) .nil hname (by decide) (by decide)
  exact ⟨h, (decoder_accepts_its_grammar _ _).2 h⟩

end FazClient
