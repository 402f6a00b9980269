import FazClient.Proofs.JsonText
import Mathlib.Data.List.Forall2

/-!
# FazClient.Proofs.JsonReading

A reader for the JSON grammar as a whole: blanks between the parts of a value, every escape,
numbers with a fraction and an exponent.  It reads back the texts that are written, though they
use little of this.

* `Datum` — what a JSON text says, and `Datum.read?` reads it; `Json.datum` is what a value says;
* `Datum.Reads` — a part of a text is read, whatever follows; it carries over to a series of
  parts (`Datum.readSeries_series`) and to whole values (`Datum.reads_chars`);
* `Json.read?_text` — the text of a value is read back.
-/

namespace FazClient

/-! ## Values -/

/-- What a JSON text says.  A number is its mantissa times a power of ten. -/
inductive Datum where
  | null
  | bool (b : Bool)
  | number (mantissa exponent : Int)
  | string (s : String)
  | list (items : List Datum)
  | object (members : List (String × Datum))

namespace Json

mutual

/-- What a value says. -/
def datum : Json → Datum
  | .bool b => .bool b
  | .int n => .number n 0
  | .string s => .string s
  | .list items => .list (itemData items)
  | .object members => .object (memberData members)
termination_by structural v => v

/-- What the items of a list say. -/
def itemData : List Json → List Datum
  | [] => []
  | v :: vs => v.datum :: itemData vs
termination_by structural vs => vs

/-- What a member of an object says. -/
def memberDatum : String × Json → String × Datum
  | (key, v) => (key, v.datum)
termination_by structural m => m

/-- What the members of an object say. -/
def memberData : List (String × Json) → List (String × Datum)
  | [] => []
  | m :: ms => memberDatum m :: memberData ms
termination_by structural ms => ms

end

theorem datum_list (items : List Json) : (list items).datum = .list (items.map datum) := by
  have hitems : itemData items = items.map datum := by
    induction items with
    | nil => rfl
    | cons v vs ih => rw [itemData, ih, List.map_cons]
  rw [datum, hitems]

theorem datum_object (members : List (String × Json)) :
    (object members).datum = .object (members.map memberDatum) := by
  have hmembers : memberData members = members.map memberDatum := by
    induction members with
    | nil => rfl
    | cons m ms ih => rw [memberData, ih, List.map_cons]
  rw [datum, hmembers]

end Json

/-! ## Reading -/

namespace Datum

open DateTime (readChar readDigits)

/-- A character that may stand between the parts of a value. -/
def isBlank (c : Char) : Bool := c = ' ' || c = '\t' || c = '\n' || c = '\r'

/-- What follows the blanks. -/
def skip (cs : List Char) : List Char := cs.dropWhile isBlank

/-- The value of a hexadecimal digit. -/
def hexValue? (c : Char) : Option Nat :=
  if '0' ≤ c ∧ c ≤ '9' then some (c.toNat - '0'.toNat)
  else if 'a' ≤ c ∧ c ≤ 'f' then some (c.toNat - 'a'.toNat + 10)
  else if 'A' ≤ c ∧ c ≤ 'F' then some (c.toNat - 'A'.toNat + 10)
  else none

/-- Reads four hexadecimal digits. -/
def readUnit : List Char → Option (Nat × List Char)
  | a :: b :: c :: d :: cs => do
    let a ← hexValue? a
    let b ← hexValue? b
    let c ← hexValue? c
    let d ← hexValue? d
    some (((a * 16 + b) * 16 + c) * 16 + d, cs)
  | _ => none

/-- Reads the character of an escape by number.  Beyond U+FFFF the number is split in two
surrogates; one that stands alone is no character. -/
def readCode (cs : List Char) : Option (Char × List Char) := do
  let (unit, cs) ← readUnit cs
  if unit < 0xd800 ∨ 0xdfff < unit then some (Char.ofNat unit, cs)
  else
    let cs ← readChar '\\' cs
    let cs ← readChar 'u' cs
    let (low, cs) ← readUnit cs
    if unit ≤ 0xdbff ∧ 0xdc00 ≤ low ∧ low ≤ 0xdfff then
      some (Char.ofNat (0x10000 + (unit - 0xd800) * 0x400 + (low - 0xdc00)), cs)
    else none

/-- The character of an escape by letter. -/
def escaped? (c : Char) : Option Char :=
  match c with
  | '"' => some '"'
  | '\\' => some '\\'
  | '/' => some '/'
  | 'b' => some '\x08'
  | 'f' => some '\x0c'
  | 'n' => some '\n'
  | 'r' => some '\r'
  | 't' => some '\t'
  | _ => none

/-- Reads the rest of an escape behind the backslash. -/
def readEscape : List Char → Option (Char × List Char)
  | [] => none
  | c :: cs => if c = 'u' then readCode cs else (escaped? c).map fun c => (c, cs)

/-- Reads a character of a string, which has to be escaped if it is a quote, a backslash or a
control. -/
def readLetter : List Char → Option (Char × List Char)
  | [] => none
  | c :: cs =>
    if c = '\\' then readEscape cs
    else if c = '"' ∨ c.toNat < 0x20 then none
    else some (c, cs)

/-- Reads fewer than so many characters up to a closing quote. -/
def readLetters : Nat → List Char → Option (List Char × List Char)
  | 0, _ | _, [] => none
  | count + 1, c :: cs =>
    if c = '"' then some ([], cs)
    else do
      let (letter, cs) ← readLetter (c :: cs)
      let (letters, cs) ← readLetters count cs
      some (letter :: letters, cs)

/-- Reads the rest of a string behind the opening quote. -/
def readString (cs : List Char) : Option (String × List Char) :=
  (readLetters cs.length cs).map fun (letters, cs) => (.ofList letters, cs)

/-- Reads a minus, if there is one, as a factor. -/
def readMinus : List Char → Int × List Char
  | '-' :: cs => (-1, cs)
  | cs => (1, cs)

/-- Reads digits, of which there has to be one: how many, and the number that they make. -/
def readDigits? (cs : List Char) : Option (Nat × Nat × List Char) :=
  let (count, n, cs) := readDigits cs
  if count = 0 then none else some (count, n, cs)

/-- Reads a whole number, which has no zeros in front. -/
def readWhole : List Char → Option (Nat × List Char)
  | '0' :: cs => some (0, cs)
  | cs => (readDigits? cs).map Prod.snd

/-- Reads a fraction, if there is one: how many digits, and the number that they make. -/
def readFraction : List Char → Option (Nat × Nat × List Char)
  | '.' :: cs => readDigits? cs
  | cs => some (0, 0, cs)

/-- Reads an exponent behind its letter. -/
def readPower (cs : List Char) : Option (Int × List Char) := do
  let (sign, cs) := match cs with
    | '+' :: cs => (1, cs)
    | cs => readMinus cs
  let (_, n, cs) ← readDigits? cs
  some (sign * n, cs)

/-- Reads an exponent, if there is one. -/
def readExponent : List Char → Option (Int × List Char)
  | 'e' :: cs => readPower cs
  | 'E' :: cs => readPower cs
  | cs => some (0, cs)

/-- Reads a number. -/
def readNumber (cs : List Char) : Option (Datum × List Char) := do
  let (sign, cs) := readMinus cs
  let (whole, cs) ← readWhole cs
  let (places, fraction, cs) ← readFraction cs
  let (exponent, cs) ← readExponent cs
  some (.number (sign * (whole * 10 ^ places + fraction)) (exponent - places), cs)

section

variable (read : List Char → Option (α × List Char))

/-- Reads at most so many parts with commas between them, up to a closing character. -/
def readParts (close : Char) : Nat → List Char → Option (List α × List Char)
  | 0, _ => none
  | count + 1, cs => do
    let (part, cs) ← read (skip cs)
    match skip cs with
    | [] => none
    | c :: cs =>
      if c = close then some ([part], cs)
      else if c = ',' then
        let (parts, cs) ← readParts close count cs
        some (part :: parts, cs)
      else none

/-- Reads parts up to a closing character, if there are any. -/
def readSeries (close : Char) (cs : List Char) : Option (List α × List Char) :=
  match readChar close (skip cs) with
  | some cs => some ([], cs)
  | none => readParts read close cs.length cs

/-- Reads a key and what it stands for. -/
def readMember (cs : List Char) : Option ((String × α) × List Char) := do
  let cs ← readChar '"' cs
  let (key, cs) ← readString cs
  let cs ← readChar ':' (skip cs)
  let (v, cs) ← read (skip cs)
  some ((key, v), cs)

end

/-- Reads a value that goes less deep than so many levels. -/
def readValue : Nat → List Char → Option (Datum × List Char)
  | 0, _ => none
  | depth + 1, cs =>
    match cs with
    | '"' :: cs => (readString cs).map fun (s, cs) => (.string s, cs)
    | '[' :: cs => (readSeries (readValue depth) ']' cs).map fun (items, cs) => (.list items, cs)
    | '\x7b' :: cs =>
      (readSeries (readMember (readValue depth)) '\x7d' cs).map fun (members, cs) =>
        (.object members, cs)
    | 't' :: 'r' :: 'u' :: 'e' :: cs => some (.bool true, cs)
    | 'f' :: 'a' :: 'l' :: 's' :: 'e' :: cs => some (.bool false, cs)
    | 'n' :: 'u' :: 'l' :: 'l' :: cs => some (.null, cs)
    | cs => readNumber cs

/-- Reads the value at the front of a text: what it says, and what follows.  No value goes deeper
than its text is long. -/
def read? (text : String) : Option (Datum × String) :=
  (readValue text.length text.toList).map fun (v, cs) => (v, .ofList cs)

end Datum

/-! ## Strings -/

namespace Datum

open DateTime (readChar readChar_cons readDigits readDigits_padNat)
open Json (quote escapeAll escapeAll_cons escapeChar escapeChar_cases shortEscapes newline
  toList_newline remainder series memberChars toList_toString_of_nonneg toList_toString_of_neg)

theorem hexValue?_hexDigit {n : Nat} (h : n < 16) : hexValue? (Json.hexDigit n) = some n := by
  have hall : ∀ n < 16, hexValue? (Json.hexDigit n) = some n := by decide
  exact hall n h

theorem readUnit_control {n : Nat} (h : n < 0x20) (rest : List Char) :
    readUnit ('0' :: '0' :: Json.hexDigit (n / 16) :: Json.hexDigit (n % 16) :: rest) =
      some (n, rest) := by
  have hhigh := hexValue?_hexDigit (show n / 16 < 16 by omega)
  have hlow := hexValue?_hexDigit (show n % 16 < 16 by omega)
  have hzero : hexValue? '0' = some 0 := rfl
  simp [readUnit, hzero, hhigh, hlow, Nat.div_add_mod']

/-- A character is read back, however it is escaped. -/
theorem readLetter_escapeChar (c : Char) (rest : List Char) :
    readLetter ((escapeChar c).toList ++ rest) = some (c, rest) := by
  obtain ⟨letter, hmem, htext⟩ | ⟨hcontrol, htext⟩ | ⟨⟨hquote, hslash, hplain⟩, htext⟩ :=
    escapeChar_cases c
  · have hall : ∀ e ∈ shortEscapes, e.2 ≠ 'u' ∧ escaped? e.2 = some e.1 := by decide
    obtain ⟨hu, hletter⟩ : letter ≠ 'u' ∧ escaped? letter = some c := hall _ hmem
    rw [htext]
    simp [readLetter, readEscape, hu, hletter]
  · have hbelow : c.toNat < 0xd800 ∨ 0xdfff < c.toNat := by omega
    rw [htext]
    simp [readLetter, readEscape, readCode, readUnit_control hcontrol, hbelow]
  · rw [htext]
    simp [readLetter, hquote, hslash, hplain]

/-- No character begins with a quote, so the string goes on. -/
theorem readLetters_succ {c : Char} {cs rest : List Char} (h : readLetter cs = some (c, rest))
    (count : Nat) :
    readLetters (count + 1) cs =
      (readLetters count rest).map fun (letters, rest) => (c :: letters, rest) := by
  cases cs with
  | nil => contradiction
  | cons d ds =>
    have hquote : d ≠ '"' := by
      rintro rfl
      contradiction
    rw [readLetters, if_neg hquote, h]
    cases hletters : readLetters count rest <;> simp [hletters]

theorem readLetters_escapeAll {cs : List Char} {count : Nat} (h : cs.length < count)
    (rest : List Char) : readLetters count (escapeAll cs ++ '"' :: rest) = some (cs, rest) := by
  induction cs generalizing count with
  | nil =>
    obtain ⟨count, rfl⟩ := Nat.exists_eq_add_one.2 h
    rfl
  | cons c cs ih =>
    obtain ⟨count, rfl⟩ := Nat.exists_eq_add_one.2 (Nat.zero_lt_of_lt h)
    rw [escapeAll_cons, List.append_assoc, readLetters_succ (readLetter_escapeChar c _),
      ih (Nat.lt_of_succ_lt_succ h)]
    rfl

theorem length_le_escapeAll (cs : List Char) : cs.length ≤ (escapeAll cs).length := by
  induction cs with
  | nil => exact Nat.le_refl 0
  | cons c cs ih =>
    have hpos : 0 < (escapeChar c).toList.length := by
      obtain ⟨_, -, htext⟩ | ⟨-, htext⟩ | ⟨-, htext⟩ := escapeChar_cases c <;> simp [htext]
    rw [escapeAll_cons, List.length_append, List.length_cons]
    omega

/-- A string is read back. -/
theorem readString_quote (s : String) (rest : List Char) :
    ∃ cs, quote s ++ rest = '"' :: cs ∧ readString cs = some (s, rest) := by
  have hlength := length_le_escapeAll s.toList
  have hcount : s.toList.length < (escapeAll s.toList ++ '"' :: rest).length := by
    rw [List.length_append, List.length_cons]
    omega
  refine ⟨escapeAll s.toList ++ '"' :: rest, by simp [quote], ?_⟩
  rw [readString, readLetters_escapeAll hcount]
  simp only [Option.map_some, String.ofList_toList]

/-! ## Numbers -/

/-- A number begins with a digit, which is a zero only if that is all. -/
theorem exists_toDigits (n : Nat) :
    ∃ d ds, Nat.toDigits 10 n = d :: ds ∧ d.isDigit = true ∧ (d = '0' → n = 0) := by
  induction n using Nat.strongRecOn with
  | ind n ih =>
    by_cases hsmall : n < 10
    · have hdigit : ∀ n < 10, (Nat.digitChar n).isDigit = true := by decide
      exact ⟨_, [], Nat.toDigits_of_lt_base hsmall, hdigit n hsmall, Nat.digitChar_eq_zero.1⟩
    · obtain ⟨d, ds, hdigits, hd, hzero⟩ := ih (n / 10) (by omega)
      have hnext : d ≠ '0' := fun h => by
        have := hzero h
        omega
      refine ⟨d, ds ++ [Nat.digitChar (n % 10)], ?_, hd, fun h => absurd h hnext⟩
      rw [Nat.toDigits_of_base_le (by decide) (by omega), hdigits]
      rfl

theorem readDigits_toDigits (n : Nat) {c : Char} (hc : c.isDigit = false) (rest : List Char) :
    readDigits? (Nat.toDigits 10 n ++ c :: rest) =
      some ((Nat.toDigits 10 n).length, n, c :: rest) := by
  have hdigits : (padNat 0 n).toList = Nat.toDigits 10 n := by
    rw [toList_padNat, Nat.zero_sub]
    rfl
  have hread := readDigits_padNat 0 n hc rest
  rw [hdigits] at hread
  rw [readDigits?, hread]
  exact if_neg (by simp [Nat.toDigits_ne_nil])

/-- A number is read back, whatever follows that is not a digit. -/
theorem readWhole_toDigits (n : Nat) {c : Char} (hc : c.isDigit = false) (rest : List Char) :
    readWhole (Nat.toDigits 10 n ++ c :: rest) = some (n, c :: rest) := by
  obtain ⟨d, ds, hdigits, -, hzero⟩ := exists_toDigits n
  by_cases hd : d = '0'
  · obtain rfl := hzero hd
    rfl
  · have hread := readDigits_toDigits n hc rest
    rw [hdigits, List.cons_append] at hread
    rw [hdigits, List.cons_append]
    simp [readWhole, hd, hread]

/-- What follows an item or a member: a comma, or the new line for the closing character. -/
def Ends (c : Char) : Prop := c = ',' ∨ c = '\n'

/-- Digits behind a sign or none are a number without a fraction and an exponent. -/
theorem readNumber_of_readMinus {cs rest : List Char} {sign : Int} {n : Nat} {c : Char}
    (hc : Ends c) (h : readMinus cs = (sign, Nat.toDigits 10 n ++ c :: rest)) :
    readNumber cs = some (.number (sign * n) 0, c :: rest) := by
  have hdigit : c.isDigit = false := by obtain rfl | rfl := hc <;> rfl
  have hfraction : readFraction (c :: rest) = some (0, 0, c :: rest) := by
    obtain rfl | rfl := hc <;> rfl
  have hexponent : readExponent (c :: rest) = some (0, c :: rest) := by
    obtain rfl | rfl := hc <;> rfl
  simp [readNumber, h, readWhole_toDigits n hdigit, hfraction, hexponent]

/-- An integer is read back, whatever comes after the comma or the new line that follows. -/
theorem readNumber_toString (n : Int) {c : Char} (hc : Ends c) (rest : List Char) :
    readNumber ((toString n).toList ++ c :: rest) = some (.number n 0, c :: rest) := by
  by_cases hn : 0 ≤ n
  · obtain ⟨d, ds, hdigits, hd, -⟩ := exists_toDigits n.natAbs
    have hminus : readMinus (Nat.toDigits 10 n.natAbs ++ c :: rest) =
        (1, Nat.toDigits 10 n.natAbs ++ c :: rest) := by
      have hne : d ≠ '-' := by
        rintro rfl
        contradiction
      simp [hdigits, readMinus, hne]
    have hvalue : 1 * (n.natAbs : Int) = n := by omega
    rw [toList_toString_of_nonneg hn, readNumber_of_readMinus hc hminus, hvalue]
  · have hvalue : -1 * (n.natAbs : Int) = n := by omega
    rw [toList_toString_of_neg (by omega), List.cons_append, readNumber_of_readMinus hc rfl,
      hvalue]

/-! ## Series -/

theorem skip_cons {c : Char} (hc : isBlank c = false) (cs : List Char) :
    skip (c :: cs) = c :: cs :=
  List.dropWhile_cons_of_neg (by simp [hc])

theorem skip_newline (level : Nat) {c : Char} (hc : isBlank c = false) (cs : List Char) :
    skip ((newline level).toList ++ c :: cs) = c :: cs := by
  have hblank : ∀ b ∈ (newline level).toList, isBlank b = true := by
    intro b hb
    rw [toList_newline] at hb
    obtain rfl | hb := List.mem_cons.1 hb
    · rfl
    · rw [List.eq_of_mem_replicate hb]
      rfl
  rw [skip, List.dropWhile_append_of_pos hblank]
  exact skip_cons hc cs

/-- What is read of a text, in front of anything that may follow it.  The text begins neither
with a blank nor with the closing character. -/
structure Reads (read : List Char → Option (α × List Char)) (close : Char) (text : List Char)
    (v : α) : Prop where
  starts : ∃ c cs, text = c :: cs ∧ isBlank c = false ∧ c ≠ close
  reads : ∀ c, Ends c → ∀ rest, read (text ++ c :: rest) = some (v, c :: rest)

section

variable {read : List Char → Option (α × List Char)} {close : Char}

theorem Reads.skip_newline {text : List Char} {v : α} (h : Reads read close text v)
    (level : Nat) (cs : List Char) :
    skip ((newline level).toList ++ (text ++ cs)) = text ++ cs := by
  obtain ⟨c, rest, rfl, hc, -⟩ := h.starts
  exact Datum.skip_newline level hc _

/-- After a part, there is a comma or the new line for the closing character. -/
theorem Reads.reads_remainder {text : List Char} {v : α} (h : Reads read close text v)
    (level : Nat) (texts : List (List Char)) (rest : List Char) :
    read (text ++ (remainder level texts ++ rest)) = some (v, remainder level texts ++ rest) := by
  cases texts with
  | nil =>
    rw [remainder, toList_newline]
    exact h.reads '\n' (.inr rfl) _
  | cons _ _ => exact h.reads ',' (.inl rfl) _

theorem length_le_remainder (level : Nat) (texts : List (List Char)) :
    texts.length ≤ (remainder level texts).length := by
  induction texts with
  | nil => exact Nat.zero_le _
  | cons text texts ih =>
    simp only [remainder, List.length_cons, List.length_append]
    omega

theorem readParts_remainder (hclose : isBlank close = false) (hcomma : close ≠ ',')
    {texts : List (List Char)} {vs : List α} (h : List.Forall₂ (Reads read close) texts vs)
    {text : List Char} {v : α} (hfirst : Reads read close text v) {count : Nat}
    (hcount : texts.length < count) (level : Nat) (rest : List Char) :
    readParts read close count
        ((newline (level + 1)).toList ++ (text ++ (remainder level texts ++ close :: rest))) =
      some (v :: vs, rest) := by
  obtain ⟨count, rfl⟩ := Nat.exists_eq_add_one.2 (Nat.zero_lt_of_lt hcount)
  induction h generalizing text v count with
  | nil =>
    rw [readParts, hfirst.skip_newline, hfirst.reads_remainder]
    simp [remainder, Datum.skip_newline level hclose]
  | cons hnext _ ih =>
    have hmore : _ < count := Nat.lt_of_succ_lt_succ hcount
    obtain ⟨count, rfl⟩ := Nat.exists_eq_add_one.2 (Nat.zero_lt_of_lt hmore)
    have hnext := ih hnext count hmore
    rw [readParts, hfirst.skip_newline, hfirst.reads_remainder]
    simp only [remainder, List.cons_append, List.append_assoc, Option.bind_eq_bind,
      Option.bind_some, skip_cons (show isBlank ',' = false from rfl), hnext, if_neg hcomma.symm]
    rfl

/-- A series is read back, if its parts are. -/
theorem readSeries_series (hclose : isBlank close = false) (hcomma : close ≠ ',')
    {texts : List (List Char)} {vs : List α} (h : List.Forall₂ (Reads read close) texts vs)
    (level : Nat) (rest : List Char) :
    readSeries read close (series level texts ++ close :: rest) = some (vs, rest) := by
  cases h with
  | nil => simp [readSeries, series, skip_cons hclose]
  | @cons text _ texts _ hfirst h =>
    obtain ⟨c, cs, htext, -, hne⟩ := hfirst.starts
    have hopen : readChar close (text ++ (remainder level texts ++ close :: rest)) = none := by
      rw [htext]
      exact if_neg hne
    have hlength := length_le_remainder level texts
    have hcount : texts.length < ((newline (level + 1)).toList ++
        (text ++ (remainder level texts ++ close :: rest))).length := by
      simp only [List.length_append, List.length_cons]
      omega
    rw [series, List.append_assoc, List.append_assoc, readSeries, hfirst.skip_newline, hopen]
    exact readParts_remainder hclose hcomma h hfirst hcount level rest

/-- A member is read back, if its value is. -/
theorem Reads.member {level : Nat} {m : String × Json} {v : α}
    (h : Reads read close (m.2.chars level) v) :
    Reads (readMember read) '\x7d' (memberChars level m) (m.1, v) where
  starts := ⟨'"', _, rfl, rfl, by decide⟩
  reads c hc rest := by
    obtain ⟨cs, hquote, hstring⟩ :=
      readString_quote m.1 (':' :: ' ' :: (m.2.chars level ++ c :: rest))
    obtain ⟨d, ds, hchars, hd, -⟩ := h.starts
    have hskip : skip (' ' :: (m.2.chars level ++ c :: rest)) = m.2.chars level ++ c :: rest := by
      rw [hchars]
      exact skip_cons hd _
    rw [memberChars, List.append_assoc, List.cons_append, List.cons_append, hquote]
    simp [readMember, hstring, skip_cons (show isBlank ':' = false from rfl), hskip, h.reads c hc]

end

/-! ## Whole values -/

theorem length_le_remainder_of_mem (level : Nat) {text : List Char} {texts : List (List Char)}
    (h : text ∈ texts) : text.length ≤ (remainder level texts).length := by
  induction texts with
  | nil => contradiction
  | cons next texts ih =>
    simp only [remainder, List.length_cons, List.length_append]
    obtain rfl | h := List.mem_cons.1 h
    · omega
    · have hle := ih h
      omega

theorem length_le_series_of_mem (level : Nat) {text : List Char} {texts : List (List Char)}
    (h : text ∈ texts) : text.length ≤ (series level texts).length := by
  cases texts with
  | nil => contradiction
  | cons first texts =>
    simp only [series, List.length_append]
    obtain rfl | h := List.mem_cons.1 h
    · omega
    · have hle := length_le_remainder_of_mem level h
      omega

/-- A number is not mistaken for a value of another kind. -/
theorem readValue_of_isDigit {d : Char} (hd : d.isDigit = true) (depth : Nat) (cs : List Char) :
    readValue (depth + 1) (d :: cs) = readNumber (d :: cs) := by
  have hne : ∀ c : Char, c.isDigit = false → d ≠ c := by
    rintro c hc rfl
    rw [hd] at hc
    contradiction
  simp [readValue, hne '"' rfl, hne '[' rfl, hne '\x7b' rfl, hne 't' rfl, hne 'f' rfl, hne 'n' rfl]

theorem isBlank_of_isDigit {d : Char} (hd : d.isDigit = true) : isBlank d = false := by
  refine Bool.eq_false_iff.2 fun hblank => ?_
  simp only [isBlank, Bool.or_eq_true, decide_eq_true_eq] at hblank
  obtain ((rfl | rfl) | rfl) | rfl := hblank <;> contradiction

theorem reads_int (n : Int) (level depth : Nat) :
    Reads (readValue (depth + 1)) ']' ((Json.int n).chars level) (.number n 0) := by
  rw [Json.chars_int]
  by_cases hn : 0 ≤ n
  · obtain ⟨d, ds, hdigits, hd, -⟩ := exists_toDigits n.natAbs
    have htext := (toList_toString_of_nonneg hn).trans hdigits
    have hclose : d ≠ ']' := by
      rintro rfl
      contradiction
    refine ⟨⟨d, ds, htext, isBlank_of_isDigit hd, hclose⟩, fun c hc rest => ?_⟩
    rw [← readNumber_toString n hc rest, htext]
    exact readValue_of_isDigit hd depth _
  · have htext := toList_toString_of_neg (Int.not_le.1 hn)
    refine ⟨⟨'-', _, htext, rfl, by decide⟩, fun c hc rest => ?_⟩
    rw [← readNumber_toString n hc rest, htext]
    rfl

theorem reads_string (s : String) (level depth : Nat) :
    Reads (readValue (depth + 1)) ']' ((Json.string s).chars level) (.string s) := by
  rw [Json.chars_string]
  refine ⟨⟨'"', _, rfl, rfl, by decide⟩, fun c _ rest => ?_⟩
  obtain ⟨cs, hquote, hstring⟩ := readString_quote s (c :: rest)
  rw [hquote]
  simp [readValue, hstring]

/-- A list is read back, if its items are. -/
theorem reads_list {items : List Json} {level depth : Nat}
    (h : ∀ v ∈ items, Reads (readValue depth) ']' (v.chars (level + 1)) v.datum) :
    Reads (readValue (depth + 1)) ']' ((Json.list items).chars level) (Json.list items).datum := by
  have hitems : List.Forall₂ (Reads (readValue depth) ']')
      (items.map (Json.chars (level + 1))) (items.map Json.datum) := by
    rw [List.forall₂_map_left_iff, List.forall₂_map_right_iff, List.forall₂_same]
    exact h
  rw [Json.chars_list, Json.datum_list]
  refine ⟨⟨'[', _, rfl, rfl, by decide⟩, fun c _ rest => ?_⟩
  have hseries := readSeries_series rfl (by decide) hitems level (c :: rest)
  simp [readValue, hseries]

/-- An object is read back, if the values of its members are. -/
theorem reads_object {members : List (String × Json)} {level depth : Nat}
    (h : ∀ m ∈ members, Reads (readValue depth) ']' (m.2.chars (level + 1)) m.2.datum) :
    Reads (readValue (depth + 1)) ']' ((Json.object members).chars level)
      (Json.object members).datum := by
  have hmembers : List.Forall₂ (Reads (readMember (readValue depth)) '\x7d')
      (members.map (memberChars (level + 1))) (members.map Json.memberDatum) := by
    rw [List.forall₂_map_left_iff, List.forall₂_map_right_iff, List.forall₂_same]
    rintro ⟨key, v⟩ hm
    exact (h (key, v) hm).member
  rw [Json.chars_object, Json.datum_object]
  refine ⟨⟨'\x7b', _, rfl, rfl, by decide⟩, fun c _ rest => ?_⟩
  have hseries := readSeries_series rfl (by decide) hmembers level (c :: rest)
  simp [readValue, hseries]

/-- A value is read back. -/
theorem reads_chars (v : Json) (level : Nat) {depth : Nat} (h : (v.chars level).length < depth) :
    Reads (readValue depth) ']' (v.chars level) v.datum := by
  induction v using Json.induction generalizing level depth with
  | bool b =>
    obtain ⟨depth, rfl⟩ := Nat.exists_eq_add_one.2 (Nat.zero_lt_of_lt h)
    cases b with
    | false => exact ⟨⟨'f', _, rfl, rfl, by decide⟩, fun _ _ _ => rfl⟩
    | true => exact ⟨⟨'t', _, rfl, rfl, by decide⟩, fun _ _ _ => rfl⟩
  | int n =>
    obtain ⟨depth, rfl⟩ := Nat.exists_eq_add_one.2 (Nat.zero_lt_of_lt h)
    exact reads_int n level depth
  | string s =>
    obtain ⟨depth, rfl⟩ := Nat.exists_eq_add_one.2 (Nat.zero_lt_of_lt h)
    exact reads_string s level depth
  | list items ih =>
    obtain ⟨depth, rfl⟩ := Nat.exists_eq_add_one.2 (Nat.zero_lt_of_lt h)
    rw [Json.chars_list, List.length_cons, List.length_append] at h
    refine reads_list fun v hv => ih v hv (level + 1) ?_
    have hle := length_le_series_of_mem level
      (List.mem_map_of_mem (f := Json.chars (level + 1)) hv)
    omega
  | object members ih =>
    obtain ⟨depth, rfl⟩ := Nat.exists_eq_add_one.2 (Nat.zero_lt_of_lt h)
    rw [Json.chars_object, List.length_cons, List.length_append] at h
    refine reads_object fun m hm => ih m hm (level + 1) ?_
    have hle := length_le_series_of_mem level
      (List.mem_map_of_mem (f := memberChars (level + 1)) hm)
    rw [memberChars, List.length_append, List.length_cons, List.length_cons] at hle
    omega

end Datum

/-- The text of a value is read back, as one value with a new line after it. -/
theorem Json.read?_text (v : Json) : Datum.read? (v.text ++ "\n") = some (v.datum, "\n") := by
  have htext := v.toList_text
  have hlength : (v.text ++ "\n").length = (v.chars 0).length + 1 := by
    rw [← String.length_toList, htext]
    exact List.length_append
  have hreads := (Datum.reads_chars v 0 (Nat.lt_succ_self _)).reads '\n' (.inr rfl) []
  rw [Datum.read?, hlength, htext, hreads]
  rfl

end FazClient
