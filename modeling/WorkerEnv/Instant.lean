/-
# WorkerEnv.Instant -- points in time and their calendar text

An instant is a count of seconds since 1970-01-01T00:00:00Z, which may be negative, with a mark for
a leap second. Its text is that of RFC 3339 with whole seconds and `Z`, in the proleptic Gregorian
calendar. Years from 0 to 9999 have four digits; every other year carries a sign and has at least
four.
-/

import WorkerEnv.Text.Digits

namespace WorkerEnv

open Text

/-! ## The calendar -/

/-- A day of the proleptic Gregorian calendar. -/
structure Day where
  year : Int
  month : Nat
  day : Nat
  deriving DecidableEq, Repr

/-- The day that is `n` days after 1970-01-01. Years are counted from the first of March, so that
the leap day is the last of its year, and in cycles of 400 years, which all have 146097 days. -/
def Day.ofCount (n : Int) : Day :=
  let z := n + 719468
  let cycle := z.fdiv 146097
  let dayOfCycle := (z.fmod 146097).toNat
  let yearOfCycle :=
    (dayOfCycle - dayOfCycle / 1460 + dayOfCycle / 36524 - dayOfCycle / 146096) / 365
  let dayOfYear := dayOfCycle - (365 * yearOfCycle + yearOfCycle / 4 - yearOfCycle / 100)
  let m := (5 * dayOfYear + 2) / 153
  let month := if m < 10 then m + 3 else m - 9
  let year : Int := yearOfCycle + cycle * 400
  { year := if month ≤ 2 then year + 1 else year
    month
    day := dayOfYear - (153 * m + 2) / 5 + 1 }

/-- The text of a year. -/
def yearText (y : Int) : List Char :=
  if 0 ≤ y ∧ y ≤ 9999 then padded 4 y.toNat
  else (if y < 0 then '-' else '+') :: padded 4 y.natAbs

/-! ## Instants -/

/-- A point in time to the second. In a leap second the clock shows second 60. -/
structure Instant where
  seconds : Int
  leap : Bool
  deriving DecidableEq, Repr

namespace Instant

/-- The number of seconds in a day. -/
def secondsPerDay : Int := 86400

/-- The first year that has a text. -/
def firstYear : Int := -262143

/-- The last year that has a text. -/
def lastYear : Int := 262142

/-- The day of an instant. -/
def date (t : Instant) : Day := Day.ofCount (t.seconds.fdiv secondsPerDay)

/-- The instant so many seconds after 1970 and `nanos` nanoseconds after that second. A leap second
is told by a billion nanoseconds or more and can only follow second 59. -/
def ofUnix? (seconds : Int) (nanos : Nat) : Option Instant :=
  let t : Instant := ⟨seconds, 1000000000 ≤ nanos⟩
  let inRange := firstYear ≤ t.date.year && t.date.year ≤ lastYear
  let leapFits := !t.leap || seconds.fmod 60 == 59
  if inRange && leapFits && nanos < 2000000000 then some t else none

/-- The text of an instant in the form of RFC 3339, with whole seconds and `Z`. -/
def text (t : Instant) : String :=
  let d := t.date
  let s := (t.seconds.fmod secondsPerDay).toNat
  let second := if t.leap then s % 60 + 1 else s % 60
  String.ofList <|
    yearText d.year ++ '-' :: padded 2 d.month ++ '-' :: padded 2 d.day ++
      'T' :: padded 2 (s / 3600) ++ ':' :: padded 2 (s / 60 % 60) ++ ':' :: padded 2 second ++ ['Z']

theorem newline_notMem_text (t : Instant) : '\n' ∉ t.text.toList := by
  have hpadded : ∀ width n, '\n' ∉ padded width n := by
    intro width n h
    exact absurd (isDigit_of_mem_padded h) (by decide)
  have hyear : ∀ y, '\n' ∉ yearText y := by
    intro y
    rw [yearText]
    split
    · exact hpadded _ _
    · split <;> simp [hpadded]
  simp [text, hpadded, hyear]

end Instant

end WorkerEnv
