/-!
# FazClient.Calendar

Instants and their dates in the proleptic Gregorian calendar, in which leap
years follow the same rule at all times and the year before 1 is 0.

Days are counted off in cycles: 400 years have 146097 days, and within them a
century, four years and a year are taken off in turn.  A year begins on the
first of March here, so that a leap day is the last day of all four.
-/

namespace FazClient

/-- A moment in time: whole seconds since the Unix epoch and microseconds after
them. -/
structure Instant where
  seconds : Int
  micros : Nat
  micros_lt : micros < 1000000

namespace Instant

/-- The moment so many microseconds after the epoch. -/
def ofMicros (micros : Int) : Instant where
  seconds := micros / 1000000
  micros := (micros % 1000000).toNat
  micros_lt := by omega

/-- The moment so many seconds after the epoch. -/
def ofSeconds (seconds : Int) : Instant := ⟨seconds, 0, by decide⟩

end Instant

/-! ## Dates -/

/-- A day of the calendar. -/
structure Date where
  year : Int
  month : Nat
  day : Nat
  deriving DecidableEq

namespace Date

/-- Days from the first of March of the year 0 to the epoch. -/
def epochOffset : Int := 719468

/-- The date that is `n` days after the first of March of the year `year`, in a
year of months from March on. -/
def ofMarchDay (year : Int) (n : Nat) : Date :=
  let m := (5 * n + 2) / 153
  let day := n - (153 * m + 2) / 5 + 1
  if m < 10 then ⟨year, m + 3, day⟩ else ⟨year + 1, m - 9, day⟩

/-- The date of a day counted from the epoch. -/
def ofEpochDay (n : Int) : Date :=
  let days := n + epochOffset
  let cycle := days / 146097
  let inCycle := (days % 146097).toNat
  let century := min 3 (inCycle / 36524)
  let inCentury := inCycle - century * 36524
  let four := inCentury / 1461
  let inFour := inCentury % 1461
  let year := min 3 (inFour / 365)
  ofMarchDay (400 * cycle + (100 * century + 4 * four + year : Nat)) (inFour - year * 365)

end Date

/-! ## Text -/

/-- A number with at least `width` digits. -/
def padNat (width n : Nat) : String :=
  let digits := toString n
  "".pushn '0' (width - digits.length) ++ digits

/-- A year with at least four digits, and with its sign outside 0 to 9999. -/
def yearText (y : Int) : String :=
  if y < 0 then "-" ++ padNat 4 y.natAbs
  else if y < 10000 then padNat 4 y.natAbs
  else "+" ++ padNat 4 y.natAbs

/-- A fraction of a second with as few digits as are exact: none, three or six. -/
def fractionText (micros : Nat) : String :=
  if micros = 0 then ""
  else if micros % 1000 = 0 then "." ++ padNat 3 (micros / 1000)
  else "." ++ padNat 6 micros

/-- Date and time at offset zero, as RFC 3339 writes them. -/
def Instant.text (t : Instant) : String :=
  let date := Date.ofEpochDay (t.seconds / 86400)
  let s := (t.seconds % 86400).toNat
  s!"{yearText date.year}-{padNat 2 date.month}-{padNat 2 date.day}T"
    ++ s!"{padNat 2 (s / 3600)}:{padNat 2 (s / 60 % 60)}:{padNat 2 (s % 60)}"
    ++ s!"{fractionText t.micros}+00:00"

end FazClient
