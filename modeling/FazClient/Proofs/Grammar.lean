import FazClient.Proofs.ReadBack

/-!
# FazClient.Proofs.Grammar

The bytes of a message as a grammar.  Every rule is about a part of the message
alone: it knows neither what follows nor what stands around.

* **parts** — `Number`, `Key` and `Delimited`;
* **fields** — a key and a value that may follow it, and such `Fields` one after the
  other, for any notion of value;
* **values** — those that are `Skipped`, those of the `Shape` of a field, and with
  them the `Message`s of a schema;
* `Overruns` — bytes that are no message because a field runs past the end of one.

Each part comes with its reader, which takes just that part off the front of its
input (`readNumber_eq_ok_iff`, `readKey_eq_ok_iff`, `readDelimited_eq_ok_iff`).
-/

namespace FazClient.Wire

namespace Grammar

/-! ## Parts of a field -/

/-- The bytes spell a number: seven bits to a byte, least significant first, with
the top bit set on every byte but the last. -/
inductive Spells : List UInt8 → Nat → Prop where
  | last {b : UInt8} : b < 128 → Spells [b] b.toNat
  | more {b : UInt8} {bytes : List UInt8} {n : Nat} :
      128 ≤ b → Spells bytes n → Spells (b :: bytes) (b.toNat - 128 + 128 * n)

/-- The bytes are a number of 64 bits, spelled with ten bytes at most. -/
structure Number (bytes : List UInt8) (n : Nat) : Prop where
  spells : Spells bytes n
  length_le : bytes.length ≤ 10
  lt : n < 2 ^ 64

/-- The bytes are a field key: a number of 32 bits, made of the number of the field
and the layout of its value. -/
structure Key (bytes : List UInt8) (number : Nat) (w : WireType) : Prop where
  spelled : Number bytes (number * 8 + w.code)
  lt : number * 8 + w.code < 2 ^ 32
  pos : 0 < number

/-- The bytes are a content behind its length. -/
def Delimited (bytes content : List UInt8) : Prop :=
  ∃ length, Number length content.length ∧ bytes = length ++ content

/-! ## Fields -/

/-- The values that may follow a key, by its number and its layout. -/
abbrev Values : Type := (number : Nat) → WireType → List UInt8 → Prop

/-- The bytes are one field: a key and a value that may follow it. -/
inductive Field (V : Values) : List UInt8 → Prop where
  | mk {key value : List UInt8} {number : Nat} {w : WireType} :
      Key key number w → V number w value → Field V (key ++ value)

/-- The bytes are fields, one after the other. -/
inductive Fields (V : Values) : List UInt8 → Prop where
  | nil : Fields V []
  | cons {field rest : List UInt8} : Field V field → Fields V rest → Fields V (field ++ rest)

/-! ## Values -/

/-- The values that are skipped, each on a level of its own.  A group holds fields that
are skipped as well, up to an end key of its own number. -/
def Skipped : (levels : Nat) → (number : Nat) → WireType → List UInt8 → Prop
  | 0, _, _, _ => False
  | _ + 1, _, .varint, bytes => ∃ n, Number bytes n
  | _ + 1, _, .fixed64, bytes => bytes.length = 8
  | _ + 1, _, .delimited, bytes => ∃ content, Delimited bytes content
  | levels + 1, number, .startGroup, bytes =>
    ∃ fields close, Fields (Skipped levels) fields ∧ Key close number .endGroup ∧
      bytes = fields ++ close
  | _ + 1, _, .endGroup, _ => False
  | _ + 1, _, .fixed32, bytes => bytes.length = 4

/-- The values of a shape: `Inner` are the messages that may stand inside. -/
def Shaped (Inner : Schema → List UInt8 → Prop) : Shape → WireType → List UInt8 → Prop
  | .word, w, bytes => w = .varint ∧ ∃ n, Number bytes n
  | .text, w, bytes => w = .delimited ∧ ∃ text, Delimited bytes (Utf8.encode text)
  | .bytes, w, bytes => w = .delimited ∧ ∃ content, Delimited bytes content
  | .message t, w, bytes => w = .delimited ∧ ∃ content, Delimited bytes content ∧ Inner t content

/-- The values that a schema admits: those of the field's shape, or skipped ones if the
schema does not have the field. -/
def Admitted (Inner : Schema → List UInt8 → Prop) (levels : Nat) (s : Schema) : Values :=
  fun number w bytes =>
    match s.field? number with
    | some f => Shaped Inner f.shape w bytes
    | none => Skipped levels number w bytes

/-- The values in a message of a schema.  A message inside takes a level. -/
def Value : (levels : Nat) → (s : Schema) → Values
  | 0, s => Admitted (fun _ _ => False) 0 s
  | levels + 1, s => Admitted (fun t => Fields (Value levels t)) (levels + 1) s

/-- The bytes are a message of a schema, with no more than so many levels of messages,
groups and skipped values inside one another. -/
def Message (levels : Nat) (s : Schema) : List UInt8 → Prop := Fields (Value levels s)

/-- In the bytes of a message, a field that starts inside a nested message runs past the
end of that one: of the message `here`, or of one `inside` it. -/
inductive Overruns : (levels : Nat) → Schema → List UInt8 → Prop where
  | here {levels number n : Nat} {s t : Schema} {f : Wire.Field}
      {before key length front field after : List UInt8} :
      Message (levels + 1) s before → Key key number .delimited →
      s.field? number = some f → f.shape = .message t → Number length n →
      Message levels t front → Field (Value levels t) field →
      front.length < n → n < front.length + field.length →
      Overruns (levels + 1) s (before ++ key ++ length ++ front ++ field ++ after)
  | inside {levels number : Nat} {s t : Schema} {f : Wire.Field}
      {before key length content after : List UInt8} :
      Message (levels + 1) s before → Key key number .delimited →
      s.field? number = some f → f.shape = .message t → Number length content.length →
      Overruns levels t content →
      Overruns (levels + 1) s (before ++ key ++ length ++ content ++ after)

end Grammar

open Grammar

/-! ## Numbers -/

namespace Varint

/-- A spelled number is read back if there is room for its bytes and, in the last
place, for what is left of its value. -/
theorem readWithin_of_spells {bytes : List UInt8} {n : Nat} (h : Spells bytes n) {room : Nat}
    (hlen : bytes.length ≤ room + 1) (hlt : n < 2 * 128 ^ room) (rest : List UInt8) :
    readWithin (room + 1) (.ofBytes (bytes ++ rest)) = some (n, .ofBytes rest) := by
  induction h generalizing room with
  | @last b hb =>
    refine readWithin_last rest hb fun h0 => ?_
    simpa [h0, UInt8.lt_iff_toNat_lt] using hlt
  | @more b bytes n hb hs ih =>
    cases room with
    | zero => cases hs <;> simp at hlen
    | succ room =>
      have hn : n < 2 * 128 ^ room := by
        rw [Nat.pow_succ] at hlt
        omega
      have hrest := ih (by simpa using hlen) hn
      exact readWithin_more (by simpa using hb) rfl hrest

/-- A number that is read ends with its first byte or goes on behind it. -/
theorem readWithin_cases {room n : Nat} {i j : Input}
    (h : readWithin (room + 1) i = some (n, j)) :
    ∃ b rest, i.bytes = b :: rest.bytes ∧
      ((b < 128 ∧ (room = 0 → b < 2) ∧ n = b.toNat ∧ j = rest) ∨
        (128 ≤ b ∧ ∃ m, readWithin room rest = some (m, j) ∧ n = b.toNat - 128 + 128 * m)) := by
  rw [readWithin] at h
  cases hnext : i.next? with
  | none => simp [hnext] at h
  | some p =>
    obtain ⟨b, rest⟩ := p
    refine ⟨b, rest, Input.next?_eq_some_iff.1 hnext, ?_⟩
    simp only [hnext] at h
    split at h
    · next hb =>
      split at h
      · contradiction
      · next hroom =>
        cases h
        exact .inl ⟨hb, fun h0 => by simpa [h0] using hroom, rfl, rfl⟩
    · next hb =>
      split at h
      · contradiction
      · next m j' hread =>
        cases h
        exact .inr ⟨by simpa using hb, m, hread, rfl⟩

/-- What is read is spelled by the bytes that were taken. -/
theorem spells_of_readWithin {room n : Nat} {i j : Input}
    (h : readWithin (room + 1) i = some (n, j)) :
    ∃ bytes, i.bytes = bytes ++ j.bytes ∧ Spells bytes n ∧ bytes.length ≤ room + 1 ∧
      n < 2 * 128 ^ room := by
  induction room generalizing i n with
  | zero =>
    obtain ⟨b, rest, hi, ⟨hb, h2, rfl, rfl⟩ | ⟨-, m, hread, -⟩⟩ := readWithin_cases h
    · have hlt : b.toNat < 2 := by simpa [UInt8.lt_iff_toNat_lt] using h2 rfl
      exact ⟨[b], by simp [hi], .last hb, by simp, by simpa using hlt⟩
    · contradiction
  | succ room ih =>
    obtain ⟨b, rest, hi, ⟨hb, -, rfl, rfl⟩ | ⟨hb, m, hread, rfl⟩⟩ := readWithin_cases h
    · have hlt : b.toNat < 128 := by simpa [UInt8.lt_iff_toNat_lt] using hb
      have hpow : 1 ≤ 128 ^ room := Nat.one_le_pow _ _ (by decide)
      refine ⟨[b], by simp [hi], .last hb, by simp, ?_⟩
      rw [Nat.pow_succ]
      omega
    · obtain ⟨bytes, hrest, hs, hlen, hm⟩ := ih hread
      have hlt : b.toNat < 256 := b.toNat_lt
      refine ⟨b :: bytes, by simp [hi, hrest], .more hb hs, by simpa using hlen, ?_⟩
      rw [Nat.pow_succ]
      omega

/-- Just the numbers are read. -/
theorem read_eq_some_iff {i j : Input} {n : Nat} :
    read i = some (n, j) ↔ ∃ bytes, i.bytes = bytes ++ j.bytes ∧ Number bytes n := by
  constructor
  · intro h
    obtain ⟨bytes, hi, hs, hlen, hlt⟩ := spells_of_readWithin h
    exact ⟨bytes, hi, hs, hlen, hlt⟩
  · rintro ⟨bytes, hi, h⟩
    have hread : read (.ofBytes (bytes ++ j.bytes)) = some (n, .ofBytes j.bytes) :=
      readWithin_of_spells h.spells h.length_le h.lt j.bytes
    rw [← hi] at hread
    simpa using hread

end Varint

/-- Just the numbers are read. -/
theorem readNumber_eq_ok_iff {i j : Input} {n : Nat} :
    readNumber i = .ok (n, j) ↔ ∃ bytes, i.bytes = bytes ++ j.bytes ∧ Number bytes n := by
  rw [← Varint.read_eq_some_iff, readNumber]
  cases Varint.read i <;> simp

/-! ## Keys and delimited bytes -/

/-- Just the keys are read. -/
theorem readKey_eq_ok_iff {i j : Input} {number : Nat} {w : WireType} :
    readKey i = .ok (number, w, j) ↔
      ∃ key, i.bytes = key ++ j.bytes ∧ Key key number w := by
  have hsize : UInt32.size = 2 ^ 32 := rfl
  have hcode := w.code_lt
  constructor
  · intro h
    rw [readKey] at h
    cases hread : readNumber i with
    | error e => simp [hread] at h
    | ok p =>
      obtain ⟨n, rest⟩ := p
      simp only [hread] at h
      split at h
      · contradiction
      · next hlt =>
        split at h
        · contradiction
        · next w' hw =>
          split at h
          · contradiction
          · next hpos =>
            cases h
            obtain ⟨key, hi, hn⟩ := readNumber_eq_ok_iff.1 hread
            have hsum : n / 8 * 8 + w.code = n := by
              rw [WireType.ofCode?_eq_some_iff.1 hw]
              omega
            exact ⟨key, hi, hsum.symm ▸ hn, by omega, by omega⟩
  · rintro ⟨key, hi, hn, hlt, hpos⟩
    have hmod : (number * 8 + w.code) % 8 = w.code := by omega
    have hdiv : (number * 8 + w.code) / 8 = number := by omega
    rw [readKey, readNumber_eq_ok_iff.2 ⟨key, hi, hn⟩]
    simp only [hmod, hdiv, WireType.ofCode?_code]
    rw [if_neg (by omega), if_neg (by omega)]

theorem readBytes_eq_ok_iff {i j : Input} {n : Nat} {bytes : List UInt8} :
    readBytes n i = .ok (bytes, j) ↔ i.bytes = bytes ++ j.bytes ∧ bytes.length = n := by
  rw [← Input.splitAt?_eq_some_iff, readBytes]
  cases i.splitAt? n <;> simp

/-- Just the bytes that stand behind their length are read. -/
theorem readDelimited_eq_ok_iff {i j : Input} {content : List UInt8} :
    readDelimited i = .ok (content, j) ↔
      ∃ bytes, i.bytes = bytes ++ j.bytes ∧ Delimited bytes content := by
  constructor
  · intro h
    rw [readDelimited] at h
    cases hread : readNumber i with
    | error e => simp [hread] at h
    | ok p =>
      obtain ⟨n, rest⟩ := p
      simp only [hread] at h
      obtain ⟨length, hi, hn⟩ := readNumber_eq_ok_iff.1 hread
      obtain ⟨hrest, rfl⟩ := readBytes_eq_ok_iff.1 h
      exact ⟨length ++ content, by simp [hi, hrest], length, hn, rfl⟩
  · rintro ⟨bytes, hi, length, hn, rfl⟩
    have hread : readNumber i = .ok (content.length, .ofBytes (content ++ j.bytes)) :=
      readNumber_eq_ok_iff.2 ⟨length, by simp [hi], hn⟩
    rw [readDelimited, hread]
    exact readBytes_eq_ok_iff.2 ⟨rfl, rfl⟩

end FazClient.Wire
