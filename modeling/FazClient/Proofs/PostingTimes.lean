import FazClient.Proofs.Calendar
import FazClient.View

/-!
# FazClient.Proofs.PostingTimes

The times that are shown.  A reader for dates and times at offset zero takes a text apart,
finds its day by counting, and gives the microseconds since the epoch.

* `readFixed_padNat`, `readYear_yearText`, `readFraction_fractionText` — every part of a
  text is read back, whatever follows;
* `Instant.read?_text` — so is the text as a whole, as the date and the time of day of the
  moment;
* `Timestamp.words?_eq` — the seconds and nanoseconds of a time can be computed in words;
* `posting_times_are_exact` — what is shown of a time, and that it is that time.
-/

namespace FazClient

/-! ## Reading -/

/-- A date and a time of day at offset zero, as a text writes them. -/
structure DateTime where
  /-- Whether the year stands behind a sign. -/
  signed : Bool
  date : Date
  hour : Nat
  minute : Nat
  second : Nat
  /-- How many digits the fraction of a second has. -/
  places : Nat
  /-- The number that these digits make. -/
  fraction : Nat
  deriving DecidableEq

namespace DateTime

/-- The microseconds since the beginning of 1970, for a fraction of at most six digits. -/
def micros (t : DateTime) : Int :=
  (t.date.epochDay * 86400 + t.hour * 3600 + t.minute * 60 + t.second) * 1000000
    + t.fraction * 10 ^ (6 - t.places)

/-- Reads this character. -/
def readChar (c : Char) : List Char → Option (List Char)
  | [] => none
  | d :: rest => if d = c then some rest else none

@[simp] theorem readChar_cons (c : Char) (rest : List Char) :
    readChar c (c :: rest) = some rest := if_pos rfl

/-- Reads a number of just so many digits. -/
def readFixed (count : Nat) (cs : List Char) : Option (Nat × List Char) :=
  let digits := cs.take count
  if digits.length = count ∧ digits.all Char.isDigit then
    some (Nat.ofDigitChars 10 digits 0, cs.drop count)
  else none

/-- Reads all digits that there are: how many, and the number that they make. -/
def readDigits (cs : List Char) : Nat × Nat × List Char :=
  let digits := cs.takeWhile Char.isDigit
  (digits.length, Nat.ofDigitChars 10 digits 0, cs.dropWhile Char.isDigit)

/-- Reads a year behind a sign, which has four digits or more. -/
def readLongYear (cs : List Char) : Option (Nat × List Char) :=
  let (count, year, rest) := readDigits cs
  if 4 ≤ count then some (year, rest) else none

/-- Reads a year: four digits, or a sign and four digits or more. -/
def readYear (cs : List Char) : Option (Bool × Int × List Char) :=
  match cs with
  | '+' :: cs => (readLongYear cs).map fun (year, rest) => (true, (year : Int), rest)
  | '-' :: cs => (readLongYear cs).map fun (year, rest) => (true, -(year : Int), rest)
  | cs => (readFixed 4 cs).map fun (year, rest) => (false, (year : Int), rest)

/-- Reads the fraction of a second, if there is one, of at most six digits: how many, and
the number that they make. -/
def readFraction (cs : List Char) : Option (Nat × Nat × List Char) :=
  match cs with
  | '.' :: cs =>
    let (count, fraction, rest) := readDigits cs
    if 1 ≤ count ∧ count ≤ 6 then some (count, fraction, rest) else none
  | cs => some (0, 0, cs)

/-- Reads a date that exists, and whether its year stands behind a sign. -/
def readDate (cs : List Char) : Option (Bool × Date × List Char) := do
  let (signed, year, cs) ← readYear cs
  let cs ← readChar '-' cs
  let (month, cs) ← readFixed 2 cs
  let cs ← readChar '-' cs
  let (day, cs) ← readFixed 2 cs
  let date : Date := ⟨year, month, day⟩
  if date.Valid then some (signed, date, cs) else none

/-- Reads the hour, the minute and the second of a time of day that exists. -/
def readClock (cs : List Char) : Option (Nat × Nat × Nat × List Char) := do
  let (hour, cs) ← readFixed 2 cs
  let cs ← readChar ':' cs
  let (minute, cs) ← readFixed 2 cs
  let cs ← readChar ':' cs
  let (second, cs) ← readFixed 2 cs
  if hour < 24 ∧ minute < 60 ∧ second < 60 then some (hour, minute, second, cs) else none

/-- Reads a date and a time of day at offset zero. -/
def read? (text : String) : Option DateTime := do
  let (signed, date, cs) ← readDate text.toList
  let cs ← readChar 'T' cs
  let (hour, minute, second, cs) ← readClock cs
  let (places, fraction, cs) ← readFraction cs
  if cs = ['+', '0', '0', ':', '0', '0'] then
    some ⟨signed, date, hour, minute, second, places, fraction⟩
  else none

end DateTime

/-! ## Digits -/

theorem toList_pushn (c : Char) (n : Nat) : ("".pushn c n).toList = List.replicate n c := by
  rw [String.pushn_eq_repeat_push]
  induction n with
  | zero => rfl
  | succ n ih => rw [Nat.repeat, String.toList_push, ih, List.replicate_succ']

/-- The digits of a number, with zeros before them. -/
theorem toList_padNat (width n : Nat) :
    (padNat width n).toList =
      List.replicate (width - (Nat.toDigits 10 n).length) '0' ++ Nat.toDigits 10 n := by
  have hdigits : (toString n).toList = Nat.toDigits 10 n := Nat.toList_repr
  rw [padNat, String.toList_append, toList_pushn, hdigits, ← String.length_toList, hdigits]

theorem isDigit_padNat {width n : Nat} : ∀ c ∈ (padNat width n).toList, c.isDigit = true := by
  intro c hc
  rw [toList_padNat, List.mem_append] at hc
  rcases hc with hzero | hdigit
  · rw [List.eq_of_mem_replicate hzero]
    rfl
  · exact Nat.isDigit_of_mem_toDigits (by decide) (by decide) hdigit

theorem ofDigitChars_padNat (width n : Nat) :
    Nat.ofDigitChars 10 (padNat width n).toList 0 = n := by
  rw [toList_padNat, Nat.ofDigitChars_append, Nat.ofDigitChars_replicate_zero, Nat.mul_zero,
    Nat.ofDigitChars_ten_toDigits]

theorem le_length_padNat (width n : Nat) : width ≤ (padNat width n).toList.length := by
  rw [toList_padNat, List.length_append, List.length_replicate]
  omega

theorem length_padNat {width n : Nat} (hw : 0 < width) (h : n < 10 ^ width) :
    (padNat width n).toList.length = width := by
  have hle := (Nat.length_toDigits_le_iff (b := 10) (by decide) hw).2 h
  rw [toList_padNat, List.length_append, List.length_replicate]
  omega

namespace DateTime

/-- A number of a fixed width is read back. -/
theorem readFixed_padNat {width n : Nat} (hw : 0 < width) (h : n < 10 ^ width)
    (rest : List Char) : readFixed width ((padNat width n).toList ++ rest) = some (n, rest) := by
  have hlength := length_padNat hw h
  have hall : (padNat width n).toList.all Char.isDigit = true := List.all_eq_true.2 isDigit_padNat
  rw [readFixed]
  simp only [List.take_left' hlength, List.drop_left' hlength, hlength, hall,
    ofDigitChars_padNat]
  rfl

theorem readFixed_two (n : Nat) (h : n < 100) (rest : List Char) :
    readFixed 2 ((padNat 2 n).toList ++ rest) = some (n, rest) :=
  readFixed_padNat (by decide) h rest

/-- All digits up to the next other character are read. -/
theorem readDigits_padNat (width n : Nat) {c : Char} (hc : c.isDigit = false) (rest : List Char) :
    readDigits ((padNat width n).toList ++ c :: rest) =
      ((padNat width n).toList.length, n, c :: rest) := by
  have htake : ((padNat width n).toList ++ c :: rest).takeWhile Char.isDigit =
      (padNat width n).toList := by
    rw [List.takeWhile_append_of_pos isDigit_padNat, List.takeWhile_cons_of_neg (by simp [hc]),
      List.append_nil]
  have hdrop : ((padNat width n).toList ++ c :: rest).dropWhile Char.isDigit = c :: rest := by
    rw [List.dropWhile_append_of_pos isDigit_padNat, List.dropWhile_cons_of_neg (by simp [hc])]
  simp only [readDigits, htake, hdrop, ofDigitChars_padNat]

theorem readLongYear_padNat (n : Nat) {c : Char} (hc : c.isDigit = false) (rest : List Char) :
    readLongYear ((padNat 4 n).toList ++ c :: rest) = some (n, c :: rest) := by
  simp only [readLongYear, readDigits_padNat 4 n hc]
  exact if_pos (le_length_padNat 4 n)

/-- A year without a sign has four digits. -/
theorem readYear_of_isDigit {d : Char} (hd : d.isDigit = true) (cs : List Char) :
    readYear (d :: cs) =
      (readFixed 4 (d :: cs)).map fun (year, rest) => (false, (year : Int), rest) := by
  have hplus : d ≠ '+' := by
    rintro rfl
    contradiction
  have hminus : d ≠ '-' := by
    rintro rfl
    contradiction
  simp [readYear, hplus, hminus]

/-- A year is read back, with the sign that it has outside 0 to 9999. -/
theorem readYear_yearText (y : Int) {c : Char} (hc : c.isDigit = false) (rest : List Char) :
    readYear ((yearText y).toList ++ c :: rest) =
      some (decide (y < 0 ∨ 9999 < y), y, c :: rest) := by
  have hlong := readLongYear_padNat y.natAbs hc rest
  rw [yearText]
  by_cases hneg : y < 0
  · have hsigned : decide (y < 0 ∨ 9999 < y) = true := decide_eq_true (.inl hneg)
    have hy : -(y.natAbs : Int) = y := by omega
    have htext : ("-" ++ padNat 4 y.natAbs).toList = '-' :: (padNat 4 y.natAbs).toList := by simp
    rw [if_pos hneg, htext, List.cons_append, readYear, hlong]
    simp only [Option.map_some, hy, hsigned]
  by_cases hshort : y < 10000
  · have hsigned : decide (y < 0 ∨ 9999 < y) = false := decide_eq_false (by omega)
    have hy : (y.natAbs : Int) = y := by omega
    have hfixed := readFixed_padNat (show 0 < 4 by decide) (show y.natAbs < 10 ^ 4 by omega)
      (c :: rest)
    rw [if_neg hneg, if_pos hshort]
    obtain ⟨d, digits, hdigits⟩ := List.exists_cons_of_length_pos
      (Nat.lt_of_lt_of_le (by decide) (le_length_padNat 4 y.natAbs))
    have hd : d.isDigit = true := isDigit_padNat d (hdigits ▸ List.mem_cons_self)
    rw [hdigits, List.cons_append] at hfixed ⊢
    rw [readYear_of_isDigit hd, hfixed]
    simp only [Option.map_some, hy, hsigned]
  · have hsigned : decide (y < 0 ∨ 9999 < y) = true := decide_eq_true (.inr (by omega))
    have hy : (y.natAbs : Int) = y := by omega
    have htext : ("+" ++ padNat 4 y.natAbs).toList = '+' :: (padNat 4 y.natAbs).toList := by simp
    rw [if_neg hneg, if_neg hshort, htext, List.cons_append, readYear, hlong]
    simp only [Option.map_some, hy, hsigned]

/-- How many digits the fraction of a second is written with. -/
def placesOf (micros : Nat) : Nat :=
  if micros = 0 then 0 else if micros % 1000 = 0 then 3 else 6

theorem placesOf_mem (micros : Nat) : placesOf micros ∈ [0, 3, 6] := by
  rw [placesOf]
  split
  · decide
  · split <;> decide

/-- So many digits are exact. -/
theorem div_mul_placesOf (micros : Nat) :
    micros / 10 ^ (6 - placesOf micros) * 10 ^ (6 - placesOf micros) = micros := by
  unfold placesOf
  split
  · omega
  · split <;> omega

/-- Fewer digits are not exact. -/
theorem placesOf_le {micros places : Nat} (h : micros < 1000000) (hplaces : places ∈ [0, 3, 6])
    (hexact : micros % 10 ^ (6 - places) = 0) : placesOf micros ≤ places := by
  have hcases : places = 0 ∨ places = 3 ∨ places = 6 := by simpa using hplaces
  unfold placesOf
  obtain rfl | rfl | rfl := hcases
  · rw [if_pos (Nat.eq_zero_of_dvd_of_lt (Nat.dvd_of_mod_eq_zero hexact) h)]
  · have hmillis : micros % 1000 = 0 := hexact
    rw [if_pos hmillis]
    split <;> decide
  · split
    · decide
    · split <;> decide

/-- A fraction of a second is read back in so many digits. -/
theorem readFraction_fractionText {micros : Nat} (h : micros < 1000000) (rest : List Char) :
    readFraction ((fractionText micros).toList ++ '+' :: rest) =
      some (placesOf micros, micros / 10 ^ (6 - placesOf micros), '+' :: rest) := by
  rw [fractionText, placesOf]
  by_cases hzero : micros = 0
  · rw [if_pos hzero, if_pos hzero, hzero]
    rfl
  by_cases hmillis : micros % 1000 = 0
  · have hlength : (padNat 3 (micros / 1000)).toList.length = 3 :=
      length_padNat (by decide) (by omega)
    have htext : ("." ++ padNat 3 (micros / 1000)).toList =
        '.' :: (padNat 3 (micros / 1000)).toList := by simp
    rw [if_neg hzero, if_neg hzero, if_pos hmillis, if_pos hmillis, htext, List.cons_append,
      readFraction, readDigits_padNat 3 _ rfl, hlength]
    rfl
  · have hlength : (padNat 6 micros).toList.length = 6 := length_padNat (by decide) h
    have htext : ("." ++ padNat 6 micros).toList = '.' :: (padNat 6 micros).toList := by simp
    rw [if_neg hzero, if_neg hzero, if_neg hmillis, if_neg hmillis, htext, List.cons_append,
      readFraction, readDigits_padNat 6 _ rfl, hlength]
    simp

/-- A date is read back. -/
theorem readDate_text {date : Date} (h : date.Valid) (rest : List Char) :
    readDate ((yearText date.year).toList ++ '-' :: ((padNat 2 date.month).toList ++
        '-' :: ((padNat 2 date.day).toList ++ rest))) =
      some (decide (date.year < 0 ∨ 9999 < date.year), date, rest) := by
  have hmonth := h.month
  have hday := h.day
  have hlength := Date.monthLength_le date.year date.month
  simp only [readDate, readYear_yearText _ (show '-'.isDigit = false from rfl), readChar_cons,
    readFixed_two date.month (by omega), readFixed_two date.day (by omega), Option.bind_eq_bind,
    Option.bind_some]
  exact if_pos h

/-- A time of day is read back. -/
theorem readClock_text {hour minute second : Nat}
    (h : hour < 24 ∧ minute < 60 ∧ second < 60) (rest : List Char) :
    readClock ((padNat 2 hour).toList ++ ':' :: ((padNat 2 minute).toList ++
        ':' :: ((padNat 2 second).toList ++ rest))) = some (hour, minute, second, rest) := by
  simp only [readClock, readChar_cons, readFixed_two hour (by omega),
    readFixed_two minute (by omega), readFixed_two second (by omega), Option.bind_eq_bind,
    Option.bind_some]
  exact if_pos h

end DateTime

/-! ## Moments -/

namespace Instant

/-- The microseconds from the epoch to a moment. -/
def total (t : Instant) : Int := t.seconds * 1000000 + t.micros

/-- The date and the time of day of a moment, as they are written. -/
def dateTime (t : Instant) : DateTime where
  signed := (Date.ofEpochDay (t.seconds / 86400)).year < 0 ∨
    9999 < (Date.ofEpochDay (t.seconds / 86400)).year
  date := .ofEpochDay (t.seconds / 86400)
  hour := (t.seconds % 86400).toNat / 3600
  minute := (t.seconds % 86400).toNat / 60 % 60
  second := (t.seconds % 86400).toNat % 60
  places := DateTime.placesOf t.micros
  fraction := t.micros / 10 ^ (6 - DateTime.placesOf t.micros)

/-- The characters of the text of a moment. -/
theorem toList_text (t : Instant) :
    t.text.toList =
      (yearText t.dateTime.date.year).toList ++ '-' ::
        ((padNat 2 t.dateTime.date.month).toList ++ '-' ::
          ((padNat 2 t.dateTime.date.day).toList ++ 'T' ::
            ((padNat 2 t.dateTime.hour).toList ++ ':' ::
              ((padNat 2 t.dateTime.minute).toList ++ ':' ::
                ((padNat 2 t.dateTime.second).toList ++
                  ((fractionText t.micros).toList ++ ['+', '0', '0', ':', '0', '0'])))))) := by
  have hstring (s : String) : toString s = s := rfl
  simp [text, dateTime, String.toList_append, hstring]

/-- The text of a moment is read back as its date and time of day. -/
theorem read?_text (t : Instant) : DateTime.read? t.text = some t.dateTime := by
  have hclock : t.dateTime.hour < 24 ∧ t.dateTime.minute < 60 ∧ t.dateTime.second < 60 := by
    simp only [dateTime]
    omega
  have hdate : t.dateTime.date.Valid := Date.valid_ofEpochDay _
  rw [DateTime.read?, toList_text]
  simp only [DateTime.readDate_text hdate, DateTime.readChar_cons, DateTime.readClock_text hclock,
    DateTime.readFraction_fractionText t.micros_lt, Option.bind_eq_bind, Option.bind_some]
  rfl

/-- The date and the time of day of a moment are that moment. -/
theorem micros_dateTime (t : Instant) : t.dateTime.micros = t.total := by
  have hfraction := DateTime.div_mul_placesOf t.micros
  have hday := Date.epochDay_ofEpochDay (t.seconds / 86400)
  simp only [DateTime.micros, total, dateTime, hday]
  have hfractionInt : ((t.micros / 10 ^ (6 - DateTime.placesOf t.micros) : Nat) : Int)
      * 10 ^ (6 - DateTime.placesOf t.micros) = t.micros := by
    exact_mod_cast hfraction
  rw [hfractionInt]
  omega

/-- A moment is written with as few digits as say it. -/
theorem places_le (t : Instant) {places : Nat} (hplaces : places ∈ [0, 3, 6])
    (hexact : t.total % 10 ^ (6 - places) = 0) : t.dateTime.places ≤ places := by
  refine DateTime.placesOf_le t.micros_lt hplaces ?_
  have hcases : places = 0 ∨ places = 3 ∨ places = 6 := by simpa using hplaces
  simp only [total] at hexact
  obtain rfl | rfl | rfl := hcases <;> norm_num at hexact ⊢ <;> omega

theorem total_ofMicros (micros : Int) : (ofMicros micros).total = micros := by
  simp only [total, ofMicros]
  omega

theorem total_ofSeconds (seconds : Int) : (ofSeconds seconds).total = seconds * 1000000 :=
  Int.add_zero _

/-- The whole seconds of a moment are cut toward the past. -/
theorem total_div (t : Instant) : t.total / 1000000 = t.seconds := by
  have hlt := t.micros_lt
  simp only [total]
  omega

end Instant

/-! ## Words -/

/-- A number as a word, if it fits. -/
def int64? (n : Int) : Option Int64 :=
  if -2 ^ 63 ≤ n ∧ n < 2 ^ 63 then some (.ofInt n) else none

@[inherit_doc int64?]
def uint32? (n : Int) : Option UInt32 :=
  if 0 ≤ n ∧ n < 2 ^ 32 then some (.ofNat n.toNat) else none

theorem int64?_eq {n : Int} (hle : -2 ^ 63 ≤ n) (hlt : n < 2 ^ 63) :
    ∃ word, int64? n = some word ∧ word.toInt = n :=
  ⟨.ofInt n, if_pos ⟨hle, hlt⟩, Int64.toInt_ofInt_of_le hle hlt⟩

theorem uint32?_eq {n : Int} (hle : 0 ≤ n) (hlt : n < 2 ^ 32) :
    ∃ word, uint32? n = some word ∧ (word.toNat : Int) = n := by
  refine ⟨.ofNat n.toNat, if_pos ⟨hle, hlt⟩, ?_⟩
  have hnat : n.toNat < 2 ^ 32 := by omega
  have hword : (UInt32.ofNat n.toNat).toNat = n.toNat := UInt32.toNat_ofNat_of_lt' hnat
  omega

namespace Timestamp

/-- The microseconds from the epoch to a time: its own, or those of its seconds where the
microseconds are not set. -/
def total (t : Timestamp) : Int :=
  if t.useconds ≠ 0 then t.useconds.toInt else t.seconds.toInt * 1000000

/-- The seconds and the nanoseconds of a time, where every number on the way to them has to
fit its word. -/
def words? (t : Timestamp) : Option (Int64 × UInt32) :=
  if t.useconds ≠ 0 then do
    let seconds ← int64? (t.useconds.toInt / 1000000)
    let micros ← int64? (t.useconds.toInt % 1000000)
    let nanos ← int64? (micros.toInt * 1000)
    let short ← uint32? nanos.toInt
    some (seconds, short)
  else some (t.seconds, 0)

theorem total_of_ne {t : Timestamp} (h : t.useconds ≠ 0) : t.total = t.useconds.toInt := if_pos h

theorem total_of_eq {t : Timestamp} (h : t.useconds = 0) : t.total = t.seconds.toInt * 1000000 :=
  if_neg (not_not_intro h)

theorem total_ofMicros (micros : Int64) : (ofMicros micros).total = micros.toInt := by
  by_cases h : micros = 0
  · rw [h]
    rfl
  · exact total_of_ne h

theorem total_instant (t : Timestamp) : t.instant.total = t.total := by
  rw [instant]
  by_cases h : t.useconds = 0
  · rw [if_pos h, Instant.total_ofSeconds, total_of_eq h]
  · rw [if_neg h, Instant.total_ofMicros, total_of_ne h]

/-- All numbers fit, and they are the seconds and the microseconds of the moment. -/
theorem words?_eq (t : Timestamp) :
    ∃ seconds nanos, t.words? = some (seconds, nanos) ∧ seconds.toInt = t.instant.seconds ∧
      nanos.toNat = t.instant.micros * 1000 := by
  rw [words?, instant]
  by_cases h : t.useconds = 0
  · rw [if_neg (not_not_intro h), if_pos h]
    exact ⟨t.seconds, 0, rfl, rfl, (Nat.zero_mul _).symm⟩
  · have hle := t.useconds.le_toInt
    have hlt := t.useconds.toInt_lt
    obtain ⟨seconds, hseconds, hsecondsInt⟩ :=
      int64?_eq (n := t.useconds.toInt / 1000000) (by omega) (by omega)
    obtain ⟨micros, hmicros, hmicrosInt⟩ :=
      int64?_eq (n := t.useconds.toInt % 1000000) (by omega) (by omega)
    obtain ⟨nanos, hnanos, hnanosInt⟩ := int64?_eq (n := micros.toInt * 1000) (by omega) (by omega)
    obtain ⟨short, hshort, hshortNat⟩ := uint32?_eq (n := nanos.toInt) (by omega) (by omega)
    rw [if_pos h, if_neg h]
    refine ⟨seconds, short, ?_, hsecondsInt, ?_⟩
    · simp only [hseconds, hmicros, hnanos, hshort, Option.bind_eq_bind, Option.bind_some]
    · simp only [Instant.ofMicros]
      omega

end Timestamp

/-! ## What is shown -/

/-- A date and a time of day are so many microseconds after the epoch, written with a sign
before the years that need one and with as few digits of a second as say it. -/
structure DateTime.Denotes (r : DateTime) (micros : Int) : Prop where
  time : r.micros = micros
  signed : r.signed ↔ r.date.year < 0 ∨ 9999 < r.date.year
  places : r.places ∈ [0, 3, 6]
  fewest : ∀ places ∈ [0, 3, 6], micros % 10 ^ (6 - places) = 0 → r.places ≤ places

/-- What is shown for so many microseconds after the epoch: a text that reads as just that
time, or nothing if it is out of range. -/
structure Shows (shown : Option String) (micros : Int) : Prop where
  isSome_iff :
    shown.isSome ↔ -8334601228800 ≤ micros / 1000000 ∧ micros / 1000000 ≤ 8210266876799
  read : ∀ text, shown = some text → ∃ r, DateTime.read? text = some r ∧ r.Denotes micros

theorem Instant.denotes (t : Instant) : t.dateTime.Denotes t.total where
  time := t.micros_dateTime
  signed := decide_eq_true_iff
  places := DateTime.placesOf_mem t.micros
  fewest _ hplaces hexact := t.places_le hplaces hexact

theorem Timestamp.shows (t : Timestamp) : Shows t.text? t.total := by
  rw [← t.total_instant, Timestamp.text?]
  constructor
  · rw [Instant.total_div]
    exact Option.isSome_ite
  · intro text htext
    obtain ⟨-, htext⟩ := Option.ite_none_right_eq_some.1 htext
    obtain rfl := Option.some.inj htext
    exact ⟨_, t.instant.read?_text, t.instant.denotes⟩

/-- **Posting times are exact**: a time that is set in microseconds is shown as these, and
else as its seconds; every number on the way to its seconds and nanoseconds fits its word.
So a time that is made of microseconds is shown as these. -/
theorem posting_times_are_exact (t : Timestamp) (c : Caw) :
    let shown (t : Timestamp) := (CawView.of { c with timestamp := some t }).postedAt
    (t.useconds ≠ 0 → Shows (shown t) t.useconds.toInt) ∧
    (t.useconds = 0 → Shows (shown t) (t.seconds.toInt * 1000000)) ∧
    (∃ seconds nanos, t.words? = some (seconds, nanos) ∧ nanos.toNat ≤ 999999999 ∧
      seconds.toInt = t.instant.seconds ∧ nanos.toNat = t.instant.micros * 1000) ∧
    ∀ micros, Shows (shown (.ofMicros micros)) micros.toInt := by
  intro shown
  have hshown (t : Timestamp) : Shows (shown t) t.total := t.shows
  refine ⟨fun h => ?_, fun h => ?_, ?_, fun micros => ?_⟩
  · exact Timestamp.total_of_ne h ▸ hshown t
  · exact Timestamp.total_of_eq h ▸ hshown t
  · obtain ⟨seconds, nanos, hwords, hseconds, hnanos⟩ := t.words?_eq
    have hlt := t.instant.micros_lt
    exact ⟨seconds, nanos, hwords, by omega, hseconds, hnanos⟩
  · exact Timestamp.total_ofMicros micros ▸ hshown (.ofMicros micros)

/-- A microsecond before the year 0. -/
theorem posting_times_are_exact_before_year_zero :
    let t : Timestamp := .ofMicros (-62167219200000001)
    let text := "-0001-12-31T23:59:59.999999+00:00"
    t.useconds ≠ 0 ∧ (CawView.of { timestamp := some t }).postedAt = some text ∧
      ∃ r, DateTime.read? text = some r ∧ r.Denotes (-62167219200000001) := by
  intro t text
  have hset : t.useconds ≠ 0 := by decide
  have htext : (CawView.of { timestamp := some t }).postedAt = some text := by decide +kernel
  exact ⟨hset, htext, ((posting_times_are_exact t {}).1 hset).read text htext⟩

end FazClient
