/-!
# FazClient.Text.Utf8

Strings and their UTF-8 bytes.  Names, texts and caw ids are strings on this
side and bytes on the wire, in three ways:

* `encode` — the bytes of a string;
* `decode?` — the string with these bytes, when they are well formed
  (`decode?_eq_some_iff`: it inverts `encode` and accepts nothing else);
* `decodeLossy` — a string for any bytes, with one U+FFFD in the place of every
  maximal ill-formed part.
-/

namespace FazClient.Utf8

/-! ## Exact conversion -/

/-- The UTF-8 bytes of a string. -/
def encode (s : String) : List UInt8 := s.toUTF8.data.toList

/-- The string whose UTF-8 bytes these are, if the bytes are well formed. -/
def decode? (bytes : List UInt8) : Option String := String.fromUTF8? ⟨bytes.toArray⟩

theorem decode?_eq_some_iff {bytes : List UInt8} {s : String} :
    decode? bytes = some s ↔ encode s = bytes := by
  unfold decode? encode String.fromUTF8?
  constructor
  · intro h
    split at h
    · cases h; rfl
    · cases h
  · rintro rfl
    rw [dif_pos (by simpa using s.isValidUTF8)]
    rfl

@[simp] theorem decode?_encode (s : String) : decode? (encode s) = some s :=
  decode?_eq_some_iff.2 rfl

theorem encode_injective {s t : String} (h : encode s = encode t) : s = t := by
  simpa [h] using (decode?_encode s).symm

@[simp] theorem encode_empty : encode "" = [] := rfl

@[simp] theorem encode_append (s t : String) : encode (s ++ t) = encode s ++ encode t := by
  simp [encode, String.toUTF8]

theorem encode_join (ss : List String) : encode (String.join ss) = ss.flatMap encode := by
  induction ss with
  | nil => simp
  | cons s ss ih => simp [ih]

theorem encode_eq_nil_iff {s : String} : encode s = [] ↔ s = "" :=
  ⟨fun h => encode_injective (h.trans encode_empty.symm), fun h => h ▸ encode_empty⟩

theorem length_encode (s : String) : (encode s).length = s.utf8ByteSize := by
  rw [encode, Array.length_toList]
  rfl

/-! ## Lossy conversion -/

/-- U+FFFD, which stands for bytes that are no character. -/
def replacement : Char := '\uFFFD'

/-- A character of which some bytes are still to come: the bits read so far,
how many bytes are missing, and the range the next one has to lie in. -/
structure Partial where
  bits : Nat
  missing : Nat
  low : UInt8
  high : UInt8

/-- What a byte starts: a whole character, a longer one, or nothing. -/
inductive Lead where
  | char (c : Char)
  | opens (p : Partial)
  | stray

/-- Classifies a byte in the first position.  The narrow ranges after `E0`,
`ED`, `F0` and `F4` keep out overlong forms, surrogates and everything above
U+10FFFF. -/
def lead (b : UInt8) : Lead :=
  if b < 0x80 then .char (Char.ofNat b.toNat)
  else if b < 0xC2 then .stray
  else if b < 0xE0 then .opens ⟨b.toNat - 0xC0, 1, 0x80, 0xBF⟩
  else if b < 0xF0 then
    .opens ⟨b.toNat - 0xE0, 2, if b = 0xE0 then 0xA0 else 0x80, if b = 0xED then 0x9F else 0xBF⟩
  else if b < 0xF5 then
    .opens ⟨b.toNat - 0xF0, 3, if b = 0xF0 then 0x90 else 0x80, if b = 0xF4 then 0x8F else 0xBF⟩
  else .stray

/-- Whether a byte may come next in an unfinished character. -/
def Partial.admits (p : Partial) (b : UInt8) : Bool := p.low ≤ b && b ≤ p.high

/-- Takes in the next byte of an unfinished character. -/
def Partial.push (p : Partial) (b : UInt8) : Lead :=
  let bits := p.bits * 64 + b.toNat % 64
  if p.missing ≤ 1 then .char (Char.ofNat bits) else .opens ⟨bits, p.missing - 1, 0x80, 0xBF⟩

/-- The text so far and, if one is open, the unfinished character. -/
structure Reading where
  text : String
  pending : Option Partial

namespace Reading

/-- Goes on after a classified byte. -/
def settle (text : String) : Lead → Reading
  | .char c => ⟨text.push c, none⟩
  | .opens p => ⟨text, some p⟩
  | .stray => ⟨text.push replacement, none⟩

/-- Reads one byte.  A byte that cannot continue the open character replaces
what there is of it by one U+FFFD and is then read as a first byte. -/
def step (r : Reading) (b : UInt8) : Reading :=
  match r.pending with
  | none => settle r.text (lead b)
  | some p =>
    if p.admits b then settle r.text (p.push b)
    else settle (r.text.push replacement) (lead b)

/-- Ends the text; a character that was never finished becomes one U+FFFD. -/
def finish (r : Reading) : String :=
  match r.pending with
  | none => r.text
  | some _ => r.text.push replacement

end Reading

/-- The text of any bytes: well-formed characters as they are, and one U+FFFD
for every maximal ill-formed part. -/
def decodeLossy (bytes : List UInt8) : String :=
  (bytes.foldl Reading.step ⟨"", none⟩).finish

end FazClient.Utf8
