import FazClient.Text.Utf8
import Mathlib.Algebra.Group.Nat.Defs

/-!
# FazClient.Proofs.LossyText

The text that is shown for bytes that need not be UTF-8.

* `Utf8.Parts` — the characters of some bytes, and the maximal ill-formed parts between them;
  there is one way to cut bytes into these (`Utf8.Parts.unique`);
* `Utf8.Lead.Stands` — what the bytes read so far come to, kept by every byte
  (`Utf8.stands_lead`, `Utf8.Partial.Stands.push`);
* `Utf8.shows_decodeLossy` — any bytes are shown part by part;
* `Utf8.Displays` — what the text tells of the bytes (`Utf8.displays_decodeLossy`);
* `Utf8.encode_decodeLossy_eq_iff` — what is shown stands for the bytes just if they are well
  formed.
-/

namespace FazClient.Utf8

open String (utf8EncodeChar)

/-! ## Characters -/

/-- The last bytes, so many, of the character with this number. -/
def tail : Nat → Nat → List UInt8
  | 0, _ => []
  | missing + 1, v => .ofNat (v / 64 ^ missing % 64 + 0x80) :: tail missing v

theorem toNat_ofNat {v : Nat} (h : v.isValidChar) : (Char.ofNat v).toNat = v := by
  rw [Char.ofNat, dif_pos h]
  rfl

/-- The four lengths of a character. -/
theorem utf8EncodeChar_cases (c : Char) :
    (c.toNat < 0x80 ∧ utf8EncodeChar c = [.ofNat c.toNat]) ∨
    (0x80 ≤ c.toNat ∧ c.toNat < 0x800 ∧
      utf8EncodeChar c = .ofNat (c.toNat / 64 + 0xC0) :: tail 1 c.toNat) ∨
    (0x800 ≤ c.toNat ∧ c.toNat < 0x10000 ∧ (c.toNat < 0xD800 ∨ 0xDFFF < c.toNat) ∧
      utf8EncodeChar c = .ofNat (c.toNat / 4096 + 0xE0) :: tail 2 c.toNat) ∨
    (0x10000 ≤ c.toNat ∧ c.toNat < 0x110000 ∧
      utf8EncodeChar c = .ofNat (c.toNat / 262144 + 0xF0) :: tail 3 c.toNat) := by
  have hvalid : c.toNat < 0xD800 ∨ 0xDFFF < c.toNat ∧ c.toNat < 0x110000 := c.valid
  have hdef : utf8EncodeChar c =
    if c.toNat ≤ 0x7F then [.ofNat c.toNat]
    else if c.toNat ≤ 0x7FF then .ofNat (c.toNat / 64 % 0x20 + 0xC0) :: tail 1 c.toNat
    else if c.toNat ≤ 0xFFFF then .ofNat (c.toNat / 4096 % 0x10 + 0xE0) :: tail 2 c.toNat
    else .ofNat (c.toNat / 262144 % 0x08 + 0xF0) :: tail 3 c.toNat := by
    simp only [tail, Nat.reducePow, Nat.div_one]
    rfl
  rw [hdef]
  by_cases hone : c.toNat ≤ 0x7F
  · exact .inl ⟨by omega, if_pos hone⟩
  · by_cases htwo : c.toNat ≤ 0x7FF
    · rw [if_neg hone, if_pos htwo, Nat.mod_eq_of_lt (by omega : c.toNat / 64 < 0x20)]
      exact .inr (.inl ⟨by omega, by omega, rfl⟩)
    · by_cases hthree : c.toNat ≤ 0xFFFF
      · rw [if_neg hone, if_neg htwo, if_pos hthree,
          Nat.mod_eq_of_lt (by omega : c.toNat / 4096 < 0x10)]
        exact .inr (.inr (.inl ⟨by omega, by omega, by omega, rfl⟩))
      · rw [if_neg hone, if_neg htwo, if_neg hthree,
          Nat.mod_eq_of_lt (by omega : c.toNat / 262144 < 0x08)]
        exact .inr (.inr (.inr ⟨by omega, by omega, rfl⟩))

/-- The first byte of a character tells its length. -/
theorem head_utf8EncodeChar {b : UInt8} {c : Char} (h : [b] <+: utf8EncodeChar c) :
    (c.toNat < 0x80 ∧ b.toNat = c.toNat) ∨
    (0x80 ≤ c.toNat ∧ c.toNat < 0x800 ∧ b.toNat = c.toNat / 64 + 0xC0) ∨
    (0x800 ≤ c.toNat ∧ c.toNat < 0x10000 ∧ (c.toNat < 0xD800 ∨ 0xDFFF < c.toNat) ∧
      b.toNat = c.toNat / 4096 + 0xE0) ∨
    (0x10000 ≤ c.toNat ∧ c.toNat < 0x110000 ∧ b.toNat = c.toNat / 262144 + 0xF0) := by
  have hhead : ∀ {n : Nat} {rest : List UInt8}, utf8EncodeChar c = .ofNat n :: rest → n < 256 →
      b.toNat = n := by
    intro n rest hc hn
    rw [hc, List.cons_prefix_cons] at h
    rw [h.1, UInt8.toNat_ofNat', Nat.mod_eq_of_lt hn]
  obtain ⟨hlt, hc⟩ | ⟨hge, hlt, hc⟩ | ⟨hge, hlt, hsurrogate, hc⟩ | ⟨hge, hlt, hc⟩ :=
    utf8EncodeChar_cases c
  · exact .inl ⟨hlt, hhead hc (by omega)⟩
  · exact .inr (.inl ⟨hge, hlt, hhead hc (by omega)⟩)
  · exact .inr (.inr (.inl ⟨hge, hlt, hsurrogate, hhead hc (by omega)⟩))
  · exact .inr (.inr (.inr ⟨hge, hlt, hhead hc (by omega)⟩))

/-- No character begins with another one. -/
theorem utf8EncodeChar_prefix_free {c d : Char} {rest : List UInt8}
    (h : utf8EncodeChar c <+: utf8EncodeChar d ++ rest) : c = d := by
  obtain ⟨rest', h⟩ := h
  have hdecode := ByteArray.utf8DecodeChar?_utf8EncodeChar_append (c := c) (b := rest'.toByteArray)
  rw [← List.toByteArray_append, h, List.toByteArray_append,
    ByteArray.utf8DecodeChar?_utf8EncodeChar_append] at hdecode
  exact (Option.some.inj hdecode).symm

/-! ## Parts -/

/-- A part of some bytes: a character, or bytes that are none. -/
inductive Part where
  | char (c : Char)
  | illFormed (bytes : List UInt8)

namespace Part

/-- What is shown for a part. -/
def shown : Part → Char
  | char c => c
  | illFormed _ => replacement

/-- Whether the part is a character. -/
def IsChar (part : Part) : Prop := ∃ c, part = char c

end Part

/-- An ill-formed part in front of other bytes.  No character begins there; and the part is the
longest front of the bytes with which a character begins, or one byte if there is no such
front. -/
structure IllFormed (part rest : List UInt8) : Prop where
  ne_nil : part ≠ []
  no_char : ∀ c, ¬ utf8EncodeChar c <+: part ++ rest
  front : part.length = 1 ∨ ∃ c, part <+: utf8EncodeChar c
  longest : ∀ front c, front <+: part ++ rest → front <+: utf8EncodeChar c →
    front.length ≤ part.length

/-- The parts of some bytes, in order: characters, and maximal ill-formed parts. -/
inductive Parts : List UInt8 → List Part → Prop
  | nil : Parts [] []
  | char (c : Char) {rest : List UInt8} {parts : List Part} :
    Parts rest parts → Parts (utf8EncodeChar c ++ rest) (.char c :: parts)
  | illFormed {part rest : List UInt8} {parts : List Part} :
    IllFormed part rest → Parts rest parts → Parts (part ++ rest) (.illFormed part :: parts)

/-- The bytes of some text. -/
def WellFormed (bytes : List UInt8) : Prop := ∃ s, encode s = bytes

theorem encode_ofList (cs : List Char) : encode (String.ofList cs) = cs.flatMap utf8EncodeChar := by
  simp [encode, String.toByteArray_ofList, List.utf8Encode]

theorem IllFormed.length_le {part rest part' rest' : List UInt8} (h : IllFormed part rest)
    (h' : IllFormed part' rest') (heq : part ++ rest = part' ++ rest') :
    part.length ≤ part'.length := by
  obtain hone | ⟨c, hc⟩ := h.front
  · rw [hone]
    exact List.length_pos_iff.2 h'.ne_nil
  · exact h'.longest part c (heq ▸ List.prefix_append part rest) hc

/-- There is one way to cut bytes into parts. -/
theorem Parts.unique {bytes : List UInt8} {parts parts' : List Part} (h : Parts bytes parts)
    (h' : Parts bytes parts') : parts = parts' := by
  induction h generalizing parts' with
  | nil =>
    generalize hbytes : ([] : List UInt8) = bytes at h'
    cases h' with
    | nil => rfl
    | char c _ => simp at hbytes
    | illFormed hill _ => simp [hill.ne_nil] at hbytes
  | @char c rest parts hrest ih =>
    generalize hbytes : utf8EncodeChar c ++ rest = bytes at h'
    cases h' with
    | nil => simp at hbytes
    | @char d rest' parts' h' =>
      obtain rfl : c = d := utf8EncodeChar_prefix_free (hbytes ▸ List.prefix_append _ _)
      rw [ih (List.append_cancel_left hbytes ▸ h')]
    | illFormed hill _ => exact absurd (hbytes ▸ List.prefix_append _ _) (hill.no_char c)
  | @illFormed part rest parts hill hrest ih =>
    generalize hbytes : part ++ rest = bytes at h'
    cases h' with
    | nil => simp [hill.ne_nil] at hbytes
    | char c _ => exact absurd (hbytes ▸ List.prefix_append _ _) (hill.no_char c)
    | @illFormed part' rest' parts' hill' h' =>
      have hlength : part.length = part'.length :=
        Nat.le_antisymm (hill.length_le hill' hbytes) (hill'.length_le hill hbytes.symm)
      obtain ⟨rfl, rfl⟩ := List.append_inj hbytes hlength
      rw [ih h']

theorem parts_encode (cs : List Char) : Parts (encode (String.ofList cs)) (cs.map .char) := by
  rw [encode_ofList]
  induction cs with
  | nil => exact .nil
  | cons c cs ih => exact .char c ih

/-- Bytes are well formed just if all their parts are characters. -/
theorem Parts.wellFormed_iff {bytes : List UInt8} {parts : List Part} (h : Parts bytes parts) :
    WellFormed bytes ↔ ∀ part ∈ parts, part.IsChar := by
  constructor
  · rintro ⟨s, rfl⟩
    rw [← String.ofList_toList (s := s)] at h
    obtain rfl := (parts_encode _).unique h
    simp [Part.IsChar]
  · intro hchars
    induction h with
    | nil => exact ⟨"", rfl⟩
    | char c _ ih =>
      obtain ⟨s, rfl⟩ := ih (List.forall_mem_cons.1 hchars).2
      refine ⟨String.ofList (c :: s.toList), ?_⟩
      rw [encode_ofList, List.flatMap_cons, ← encode_ofList, String.ofList_toList]
    | illFormed _ _ _ =>
      obtain ⟨c, hc⟩ := (List.forall_mem_cons.1 hchars).1
      contradiction

/-! ## Unfinished characters -/

/-- The character with this number has the bits read so far, and its next byte is in range. -/
def Partial.Covers (p : Partial) (v : Nat) : Prop :=
  v / 64 ^ p.missing = p.bits ∧ p.low.toNat ≤ v / 64 ^ (p.missing - 1) % 64 + 0x80 ∧
    v / 64 ^ (p.missing - 1) % 64 + 0x80 ≤ p.high.toNat

/-- These bytes are the front of the characters that an unfinished one can become, and of no
others. -/
structure Partial.Stands (p : Partial) (front : List UInt8) : Prop where
  ne_nil : front ≠ []
  missing_pos : 0 < p.missing
  low_ge : 0x80 ≤ p.low.toNat
  low_le_high : p.low.toNat ≤ p.high.toNat
  high_le : p.high.toNat ≤ 0xBF
  /-- No gap of the numbers, and nothing above U+10FFFF, can be reached. -/
  valid : ∀ v, p.Covers v → v.isValidChar
  encodes : ∀ c : Char, p.Covers c.toNat → utf8EncodeChar c = front ++ tail p.missing c.toNat
  covers : ∀ c, front <+: utf8EncodeChar c → p.Covers c.toNat

/-- What bytes come to at the front of some bytes: a character, the front of one, or a byte
with which none begins. -/
def Lead.Stands (front : List UInt8) : Lead → Prop
  | .char c => utf8EncodeChar c = front
  | .opens p => p.Stands front
  | .stray => front.length = 1 ∧ ∀ c, ¬ front <+: utf8EncodeChar c

theorem Partial.stands_two {b : UInt8} (hlow : 0xC2 ≤ b.toNat) (hhigh : b.toNat < 0xE0) :
    Partial.Stands ⟨b.toNat - 0xC0, 1, 0x80, 0xBF⟩ [b] where
  ne_nil := List.cons_ne_nil b []
  missing_pos := Nat.one_pos
  low_ge := Nat.le_refl _
  low_le_high := Nat.le_of_ble_eq_true rfl
  high_le := Nat.le_refl _
  valid v h := by
    simp only [Covers, Nat.reducePow] at h
    exact .inl (by omega)
  encodes c h := by
    simp only [Covers, Nat.reducePow] at h
    obtain ⟨hlt, hc⟩ | ⟨hge, hlt, hc⟩ | ⟨hge, hlt, -, hc⟩ | ⟨hge, hlt, hc⟩ := utf8EncodeChar_cases c
    · omega
    · rw [hc, show c.toNat / 64 + 0xC0 = b.toNat by omega, UInt8.ofNat_toNat]
      rfl
    · omega
    · omega
  covers c h := by
    have hhead := head_utf8EncodeChar h
    simp only [Covers, Nat.reducePow, UInt8.reduceToNat, Nat.div_one, Nat.sub_self]
    omega

/-- The narrow ranges after `E0` and `ED` keep out overlong forms and surrogates. -/
theorem Partial.stands_three {b low high : UInt8} (hfirst : 0xE0 ≤ b.toNat) (hlast : b.toNat < 0xF0)
    (hlow : (b.toNat = 0xE0 → low.toNat = 0xA0) ∧ (b.toNat ≠ 0xE0 → low.toNat = 0x80))
    (hhigh : (b.toNat = 0xED → high.toNat = 0x9F) ∧ (b.toNat ≠ 0xED → high.toNat = 0xBF)) :
    Partial.Stands ⟨b.toNat - 0xE0, 2, low, high⟩ [b] where
  ne_nil := List.cons_ne_nil b []
  missing_pos := Nat.two_pos
  low_ge := by dsimp only; omega
  low_le_high := by dsimp only; omega
  high_le := by dsimp only; omega
  valid v h := by
    simp only [Covers, Nat.reducePow, Nat.add_one_sub_one] at h
    simp only [Nat.isValidChar]
    omega
  encodes c h := by
    simp only [Covers, Nat.reducePow, Nat.add_one_sub_one] at h
    obtain ⟨hlt, hc⟩ | ⟨hge, hlt, hc⟩ | ⟨hge, hlt, -, hc⟩ | ⟨hge, hlt, hc⟩ := utf8EncodeChar_cases c
    · omega
    · omega
    · rw [hc, show c.toNat / 4096 + 0xE0 = b.toNat by omega, UInt8.ofNat_toNat]
      rfl
    · omega
  covers c h := by
    have hhead := head_utf8EncodeChar h
    simp only [Covers, Nat.reducePow, Nat.add_one_sub_one]
    omega

/-- The narrow ranges after `F0` and `F4` keep out overlong forms and what is above U+10FFFF. -/
theorem Partial.stands_four {b low high : UInt8} (hfirst : 0xF0 ≤ b.toNat) (hlast : b.toNat < 0xF5)
    (hlow : (b.toNat = 0xF0 → low.toNat = 0x90) ∧ (b.toNat ≠ 0xF0 → low.toNat = 0x80))
    (hhigh : (b.toNat = 0xF4 → high.toNat = 0x8F) ∧ (b.toNat ≠ 0xF4 → high.toNat = 0xBF)) :
    Partial.Stands ⟨b.toNat - 0xF0, 3, low, high⟩ [b] where
  ne_nil := List.cons_ne_nil b []
  missing_pos := Nat.succ_pos 2
  low_ge := by dsimp only; omega
  low_le_high := by dsimp only; omega
  high_le := by dsimp only; omega
  valid v h := by
    simp only [Covers, Nat.reducePow, Nat.add_one_sub_one] at h
    simp only [Nat.isValidChar]
    omega
  encodes c h := by
    simp only [Covers, Nat.reducePow, Nat.add_one_sub_one] at h
    obtain ⟨hlt, hc⟩ | ⟨hge, hlt, hc⟩ | ⟨hge, hlt, -, hc⟩ | ⟨hge, hlt, hc⟩ := utf8EncodeChar_cases c
    · omega
    · omega
    · omega
    · rw [hc, show c.toNat / 262144 + 0xF0 = b.toNat by omega, UInt8.ofNat_toNat]
      rfl
  covers c h := by
    have hhead := head_utf8EncodeChar h
    simp only [Covers, Nat.reducePow, Nat.add_one_sub_one]
    omega

theorem toNat_ite (b x narrow wide : UInt8) :
    (b.toNat = x.toNat → (if b = x then narrow else wide).toNat = narrow.toNat) ∧
      (b.toNat ≠ x.toNat → (if b = x then narrow else wide).toNat = wide.toNat) := by
  rw [Ne, UInt8.toNat_inj]
  exact ⟨fun h => by rw [if_pos h], fun h => by rw [if_neg h]⟩

/-- A byte with which no character begins. -/
theorem Lead.stands_stray {b : UInt8} (h : 0x80 ≤ b.toNat ∧ b.toNat < 0xC2 ∨ 0xF5 ≤ b.toNat) :
    Lead.stray.Stands [b] := by
  refine ⟨rfl, fun c hc => ?_⟩
  have hhead := head_utf8EncodeChar hc
  omega

theorem Lead.stands_char {b : UInt8} (h : b.toNat < 0x80) :
    (Lead.char (Char.ofNat b.toNat)).Stands [b] := by
  have hnat := toNat_ofNat (.inl (by omega) : b.toNat.isValidChar)
  obtain ⟨-, hc⟩ | ⟨hge, -⟩ | ⟨hge, -⟩ | ⟨hge, -⟩ := utf8EncodeChar_cases (Char.ofNat b.toNat)
  · rw [Stands, hc, hnat, UInt8.ofNat_toNat]
  all_goals omega

theorem stands_lead (b : UInt8) : (lead b).Stands [b] := by
  simp only [lead, UInt8.lt_iff_toNat_lt, UInt8.reduceToNat]
  by_cases hone : b.toNat < 0x80
  · rw [if_pos hone]
    exact Lead.stands_char hone
  rw [if_neg hone]
  by_cases hstray : b.toNat < 0xC2
  · rw [if_pos hstray]
    exact Lead.stands_stray (.inl ⟨by omega, hstray⟩)
  rw [if_neg hstray]
  by_cases htwo : b.toNat < 0xE0
  · rw [if_pos htwo]
    exact Partial.stands_two (by omega) htwo
  rw [if_neg htwo]
  by_cases hthree : b.toNat < 0xF0
  · rw [if_pos hthree]
    exact Partial.stands_three (by omega) hthree (toNat_ite b 0xE0 0xA0 0x80)
      (toNat_ite b 0xED 0x9F 0xBF)
  rw [if_neg hthree]
  by_cases hfour : b.toNat < 0xF5
  · rw [if_pos hfour]
    exact Partial.stands_four (by omega) hfour (toNat_ite b 0xF0 0x90 0x80)
      (toNat_ite b 0xF4 0x8F 0xBF)
  rw [if_neg hfour]
  exact Lead.stands_stray (.inr (by omega))

namespace Partial

theorem admits_iff {p : Partial} {b : UInt8} :
    p.admits b = true ↔ p.low.toNat ≤ b.toNat ∧ b.toNat ≤ p.high.toNat := by
  rw [admits, Bool.and_eq_true, decide_eq_true_iff, decide_eq_true_iff, UInt8.le_iff_toNat_le,
    UInt8.le_iff_toNat_le]

namespace Stands

variable {p : Partial} {front : List UInt8} {b : UInt8} (h : p.Stands front)

include h

/-- Some character begins with the bytes. -/
theorem exists_prefix : ∃ c, front <+: utf8EncodeChar c := by
  obtain ⟨bits, _ | missing, low, high⟩ := p
  · exact absurd h.missing_pos (Nat.lt_irrefl 0)
  · have hlow : 0x80 ≤ low.toNat := h.low_ge
    have hle : low.toNat ≤ high.toNat := h.low_le_high
    have hhigh : high.toNat ≤ 0xBF := h.high_le
    let v := (bits * 64 + (low.toNat - 0x80)) * 64 ^ missing
    have hdiv : v / 64 ^ missing = bits * 64 + (low.toNat - 0x80) :=
      Nat.mul_div_cancel _ (Nat.pow_pos (by decide))
    have hcovers : Covers ⟨bits, missing + 1, low, high⟩ v := by
      simp only [Covers, Nat.pow_succ, ← Nat.div_div_eq_div_mul, Nat.add_one_sub_one, hdiv]
      omega
    have hnat := toNat_ofNat (h.valid v hcovers)
    exact ⟨Char.ofNat v, _, (h.encodes _ (hnat.symm ▸ hcovers)).symm⟩

/-- What follows in a character that begins with the bytes. -/
theorem exists_next {c : Char} (hc : front <+: utf8EncodeChar c) :
    ∃ next, p.admits next = true ∧ next.toNat = c.toNat / 64 ^ (p.missing - 1) % 64 + 0x80 ∧
      utf8EncodeChar c = front ++ next :: tail (p.missing - 1) c.toNat := by
  have hcovers := h.covers c hc
  have hencodes := h.encodes c hcovers
  obtain ⟨bits, _ | missing, low, high⟩ := p
  · exact absurd h.missing_pos (Nat.lt_irrefl 0)
  · simp only [Covers, Nat.add_one_sub_one] at hcovers ⊢
    have hnat : (UInt8.ofNat (c.toNat / 64 ^ missing % 64 + 0x80)).toNat =
        c.toNat / 64 ^ missing % 64 + 0x80 := by
      rw [UInt8.toNat_ofNat', Nat.mod_eq_of_lt (by omega)]
    refine ⟨_, admits_iff.2 ?_, hnat, hencodes⟩
    rw [hnat]
    exact hcovers.2

/-- A byte that is not admitted follows in no character. -/
theorem not_prefix (hb : p.admits b = false) (c : Char) : ¬ front ++ [b] <+: utf8EncodeChar c := by
  intro hc
  obtain ⟨next, hnext, -, hencodes⟩ := h.exists_next ((List.prefix_append _ _).trans hc)
  rw [hencodes, List.prefix_append_right_inj, List.cons_prefix_cons] at hc
  rw [hc.1, hnext] at hb
  contradiction

theorem push (hb : p.admits b = true) : (p.push b).Stands (front ++ [b]) := by
  have hrange := admits_iff.1 hb
  have hlow := h.low_ge
  have hhigh := h.high_le
  rw [Partial.push]
  obtain ⟨bits, _ | _ | missing, low, high⟩ := p
  · exact absurd h.missing_pos (Nat.lt_irrefl 0)
  · -- The last byte: the bits are the number of a character.
    rw [if_pos (Nat.le_refl 1)]
    dsimp only at hrange hlow hhigh ⊢
    have hcovers : Covers ⟨bits, 1, low, high⟩ (bits * 64 + b.toNat % 64) := by
      simp only [Covers, Nat.pow_one, Nat.sub_self, Nat.pow_zero, Nat.div_one]
      omega
    have hnat := toNat_ofNat (h.valid _ hcovers)
    have hencodes := h.encodes _ (hnat.symm ▸ hcovers)
    rw [Lead.Stands, hencodes, hnat, tail, tail, Nat.pow_zero, Nat.div_one,
      show (bits * 64 + b.toNat % 64) % 64 + 0x80 = b.toNat by omega, UInt8.ofNat_toNat]
  · rw [if_neg (by simp)]
    dsimp only [Nat.add_one_sub_one] at hrange hlow hhigh ⊢
    have hcovers : ∀ v, Covers ⟨bits * 64 + b.toNat % 64, missing + 1, 0x80, 0xBF⟩ v →
        Covers ⟨bits, missing + 2, low, high⟩ v ∧ v / 64 ^ (missing + 1) % 64 + 0x80 = b.toNat := by
      intro v hv
      simp only [Covers, Nat.add_one_sub_one] at hv
      simp only [Covers, Nat.pow_succ _ (missing + 1), ← Nat.div_div_eq_div_mul,
        Nat.add_one_sub_one, hv.1]
      omega
    refine ⟨by simp, Nat.succ_pos missing, Nat.le_refl _, Nat.le_of_ble_eq_true rfl, Nat.le_refl _,
      fun v hv => h.valid v (hcovers v hv).1, fun c hc => ?_, fun c hc => ?_⟩
    · rw [h.encodes c (hcovers _ hc).1, tail, (hcovers _ hc).2, UInt8.ofNat_toNat,
        List.append_assoc]
      rfl
    · obtain ⟨hbits, -⟩ := h.covers c ((List.prefix_append _ _).trans hc)
      obtain ⟨next, -, hnext, hencodes⟩ := h.exists_next ((List.prefix_append _ _).trans hc)
      rw [hencodes, List.prefix_append_right_inj, List.cons_prefix_cons] at hc
      obtain ⟨rfl, -⟩ := hc
      simp only [Covers, Nat.pow_succ _ (missing + 1), ← Nat.div_div_eq_div_mul,
        Nat.add_one_sub_one] at hbits hnext ⊢
      simp only [UInt8.reduceToNat]
      omega

end Stands

end Partial

/-! ## Lossy text -/

theorem push_append_ofList (text : String) (c : Char) (cs : List Char) :
    text.push c ++ String.ofList cs = text ++ String.ofList (c :: cs) := by
  rw [← String.toList_inj]
  simp

/-- The bytes are shown, part by part, after some text. -/
def Shows (bytes : List UInt8) (text shown : String) : Prop :=
  ∃ parts, Parts bytes parts ∧ shown = text ++ String.ofList (parts.map Part.shown)

namespace Shows

variable {rest : List UInt8} {text shown : String}

theorem nil : Shows [] text text :=
  ⟨[], .nil, by simp⟩

theorem char {c : Char} (h : Shows rest (text.push c) shown) :
    Shows (utf8EncodeChar c ++ rest) text shown := by
  obtain ⟨parts, hparts, rfl⟩ := h
  exact ⟨_, hparts.char c, push_append_ofList ..⟩

theorem illFormed {part : List UInt8} (hpart : IllFormed part rest)
    (h : Shows rest (text.push replacement) shown) : Shows (part ++ rest) text shown := by
  obtain ⟨parts, hparts, rfl⟩ := h
  exact ⟨_, hparts.illFormed hpart, push_append_ofList ..⟩

end Shows

/-- Bytes are an ill-formed part where no character begins with them and what follows. -/
theorem illFormed_of_not_prefix {part rest : List UInt8} (hne : part ≠ [])
    (hfront : part.length = 1 ∨ ∃ c, part <+: utf8EncodeChar c)
    (hno : ∀ c, ¬ utf8EncodeChar c <+: part)
    (hlonger : ∀ front c, front <+: part ++ rest → part.length < front.length →
      ¬ front <+: utf8EncodeChar c) : IllFormed part rest where
  ne_nil := hne
  front := hfront
  longest front c hrest hc := Nat.le_of_not_lt fun hlt => hlonger front c hrest hlt hc
  no_char c hc := by
    obtain hlt | hle := Nat.lt_or_ge part.length (utf8EncodeChar c).length
    · exact hlonger _ c hc hlt List.prefix_rfl
    · exact hno c (List.prefix_of_prefix_length_le hc (List.prefix_append part rest) hle)

theorem Lead.Stands.illFormed {part : List UInt8} (h : Lead.stray.Stands part)
    (rest : List UInt8) : IllFormed part rest := by
  obtain ⟨hone, hstray⟩ := h
  refine illFormed_of_not_prefix (List.length_pos_iff.1 (hone ▸ Nat.one_pos)) (.inl hone) ?_ ?_
  · intro c hc
    have hpos : 0 < (utf8EncodeChar c).length := List.length_pos_iff.2 String.utf8EncodeChar_ne_nil
    exact hstray c (hc.eq_of_length_le (by omega) ▸ List.prefix_rfl)
  · intro front c hrest hlt hc
    exact hstray c ((List.prefix_of_prefix_length_le (List.prefix_append part rest) hrest
      (Nat.le_of_lt hlt)).trans hc)

/-- An unfinished character is an ill-formed part where the next byte does not go on with it. -/
theorem Partial.Stands.illFormed {p : Partial} {part rest : List UInt8} (h : p.Stands part)
    (hrest : ∀ b ∈ rest.head?, p.admits b = false) : IllFormed part rest := by
  obtain ⟨c, hc⟩ := h.exists_prefix
  refine illFormed_of_not_prefix h.ne_nil (.inr ⟨c, hc⟩) ?_ ?_
  · intro d hd
    have hprefix : utf8EncodeChar d <+: utf8EncodeChar c ++ [] := by simpa using hd.trans hc
    obtain rfl : d = c := utf8EncodeChar_prefix_free hprefix
    obtain ⟨next, -, -, hencodes⟩ := h.exists_next hc
    have hlength := hd.length_le
    rw [hencodes, List.length_append, List.length_cons] at hlength
    omega
  · intro front d hfront hlt hd
    cases rest with
    | nil =>
      rw [List.append_nil] at hfront
      exact Nat.not_lt.2 hfront.length_le hlt
    | cons b rest =>
      have hnext : part ++ [b] <+: front :=
        List.prefix_of_prefix_length_le ⟨rest, by simp⟩ hfront
          (by simpa [Nat.succ_le_iff] using hlt)
      exact h.not_prefix (hrest b rfl) d (hnext.trans hd)

/-- After bytes that come to something, the rest is read part by part. -/
theorem shows_foldl_settle (rest : List UInt8) (text : String) {l : Lead} {front : List UInt8}
    (hl : l.Stands front) :
    Shows (front ++ rest) text (rest.foldl Reading.step (Reading.settle text l)).finish := by
  induction rest generalizing text l front with
  | nil =>
    cases l with
    | char c =>
      obtain rfl : utf8EncodeChar c = front := hl
      exact Shows.nil.char
    | opens p => exact Shows.nil.illFormed (Partial.Stands.illFormed hl (by simp))
    | stray => exact Shows.nil.illFormed (hl.illFormed [])
  | cons b rest ih =>
    -- Where a new part begins, this byte is its first.
    have hfirst : ∀ text, Shows (b :: rest) text
        (rest.foldl Reading.step (Reading.settle text (lead b))).finish :=
      fun text => ih text (stands_lead b)
    cases l with
    | char c =>
      obtain rfl : utf8EncodeChar c = front := hl
      exact (hfirst _).char
    | stray => exact (hfirst _).illFormed (hl.illFormed _)
    | opens p =>
      rw [List.foldl_cons, Reading.settle]
      by_cases hb : p.admits b = true
      · have hstep : Reading.step ⟨text, some p⟩ b = .settle text (p.push b) := if_pos hb
        have hnext := ih text (Partial.Stands.push hl hb)
        rwa [List.append_assoc, ← hstep] at hnext
      · have hstep : Reading.step ⟨text, some p⟩ b = .settle (text.push replacement) (lead b) :=
          if_neg hb
        rw [hstep]
        exact (hfirst _).illFormed (Partial.Stands.illFormed hl (by simpa using hb))

/-- Any bytes are shown part by part. -/
theorem shows_decodeLossy (bytes : List UInt8) : Shows bytes "" (decodeLossy bytes) := by
  cases bytes with
  | nil => exact Shows.nil
  | cons b rest => exact shows_foldl_settle rest "" (stands_lead b)

/-- The text shows the parts of the bytes, in order: every character as it is, and one U+FFFD
in the place of every maximal ill-formed part.  There is no such part just if the bytes are
well formed. -/
def Displays (bytes : List UInt8) (shown : String) : Prop :=
  ∃ parts, Parts bytes parts ∧ (∀ other, Parts bytes other → other = parts) ∧
    shown = String.ofList (parts.map Part.shown) ∧
    (WellFormed bytes ↔ ∀ part ∈ parts, part.IsChar)

theorem displays_decodeLossy (bytes : List UInt8) : Displays bytes (decodeLossy bytes) := by
  obtain ⟨parts, hparts, hshown⟩ := shows_decodeLossy bytes
  rw [String.empty_append] at hshown
  exact ⟨parts, hparts, fun _ hother => hother.unique hparts, hshown, hparts.wellFormed_iff⟩

/-- Text is shown as it is. -/
theorem decodeLossy_encode (s : String) : decodeLossy (encode s) = s := by
  obtain ⟨parts, hparts, hshown⟩ := shows_decodeLossy (encode s)
  rw [← String.ofList_toList (s := s)] at hparts
  obtain rfl := (parts_encode _).unique hparts
  rw [hshown, String.empty_append, List.map_map]
  exact (congrArg String.ofList (List.map_id _)).trans String.ofList_toList

/-- What is shown stands for the bytes just if they are well formed. -/
theorem encode_decodeLossy_eq_iff {bytes : List UInt8} :
    encode (decodeLossy bytes) = bytes ↔ WellFormed bytes := by
  constructor
  · exact fun h => ⟨_, h⟩
  · rintro ⟨s, rfl⟩
    rw [decodeLossy_encode]

theorem decodeLossy_ne_empty {bytes : List UInt8} (h : bytes ≠ []) : decodeLossy bytes ≠ "" := by
  obtain ⟨parts, hparts, hshown⟩ := shows_decodeLossy bytes
  rw [hshown, String.empty_append]
  cases hparts with
  | nil => contradiction
  | char _ _ | illFormed _ _ => simp [← String.toList_inj]

end FazClient.Utf8
