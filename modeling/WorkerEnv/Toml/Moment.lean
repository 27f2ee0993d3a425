/-
# WorkerEnv.Toml.Moment -- dates and times

A moment is a date, a time of day, or a date with a time and perhaps an offset from UTC. Reading is
liberal where the grammar is (a space or a lower-case `t` between date and time, a lower-case `z`,
seconds left out, any number of digits of a fraction) and `Moment.text` writes one form: `T` and `Z`
in upper case, seconds always there, a fraction of at most nine digits without zeros at its end.
An offset of zero minutes is written `+00:00` whichever sign it was read with.
-/

import WorkerEnv.Text.Digits

namespace WorkerEnv.Toml

open Text

/-- A day of the calendar. -/
structure Date where
  year : Nat
  month : Nat
  day : Nat
  deriving DecidableEq, Repr

/-- A time of day, with a leap second allowed. -/
structure Time where
  hour : Nat
  minute : Nat
  second : Nat
  nanosecond : Nat
  deriving DecidableEq, Repr

/-- The distance from UTC: none at all, or a signed number of minutes. -/
inductive Offset where
  | utc
  | minutes (count : Int)
  deriving DecidableEq, Repr

/-- A date, a time, or both; an offset only beside both. -/
structure Moment where
  date : Option Date
  time : Option Time
  offset : Option Offset
  deriving DecidableEq, Repr

/-! ## Writing -/

/-- `YYYY-MM-DD` -/
def Date.text (d : Date) : List Char :=
  padded 4 d.year ++ '-' :: padded 2 d.month ++ '-' :: padded 2 d.day

/-- The fraction of a second, or nothing when it is zero. -/
def fractionText (nanosecond : Nat) : List Char :=
  if nanosecond = 0 then []
  else '.' :: ((padded 9 nanosecond).reverse.dropWhile (· == '0')).reverse

/-- `HH:MM:SS` and the fraction. -/
def Time.text (t : Time) : List Char :=
  padded 2 t.hour ++ ':' :: padded 2 t.minute ++ ':' :: padded 2 t.second ++
    fractionText t.nanosecond

/-- `Z`, or a sign with hours and minutes. -/
def Offset.text : Offset → List Char
  | .utc => ['Z']
  | .minutes n =>
    (if n < 0 then '-' else '+') :: padded 2 (n.natAbs / 60) ++ ':' :: padded 2 (n.natAbs % 60)

/-- The parts that are there, with `T` between a date and a time. -/
def Moment.text (m : Moment) : List Char :=
  let date := (m.date.map Date.text).getD []
  let mark := if m.date.isSome && m.time.isSome then ['T'] else []
  let time := (m.time.map Time.text).getD []
  let offset := (m.offset.map Offset.text).getD []
  date ++ mark ++ time ++ offset

/-! ## Reading -/

/-- How many days a month has. -/
def daysInMonth (year month : Nat) : Nat :=
  if month = 2 then
    if year % 4 = 0 ∧ (year % 100 ≠ 0 ∨ year % 400 = 0) then 29 else 28
  else if month = 4 ∨ month = 6 ∨ month = 9 ∨ month = 11 then 30
  else 31

/-- A number of exactly `n` digits. -/
def fixedDigits? (n : Nat) (s : List Char) : Option (Nat × List Char) :=
  let front := s.take n
  if front.length = n ∧ front.all isDigit then some (numeral 10 front, s.drop n) else none

/-- A number of exactly two digits after a mark. -/
def pairAfter? (mark : Char) : List Char → Option (Nat × List Char)
  | c :: r => if c = mark then fixedDigits? 2 r else none
  | [] => none

/-- A date that the calendar has. -/
def Date.read? (s : List Char) : Option (Date × List Char) := do
  let (year, r) ← fixedDigits? 4 s
  let (month, r) ← pairAfter? '-' r
  let (day, r) ← pairAfter? '-' r
  guard (1 ≤ month ∧ month ≤ 12)
  guard (1 ≤ day ∧ day ≤ daysInMonth year month)
  pure (⟨year, month, day⟩, r)

/-- The nanoseconds of a fraction: its first nine digits, the rest is cut off. -/
def nanosecondsOf (digits : List Char) : Nat :=
  let front := digits.take 9
  numeral 10 (front ++ List.replicate (9 - front.length) '0')

/-- The fraction after the seconds, if there is one. -/
def fraction? : List Char → Option (Nat × List Char)
  | '.' :: r =>
    match r.takeWhile isDigit with
    | [] => none
    | digits => some (nanosecondsOf digits, r.dropWhile isDigit)
  | r => some (0, r)

/-- The seconds with their fraction, if they are there. -/
def seconds? : List Char → Option (Nat × Nat × List Char)
  | ':' :: r => do
    let (second, r) ← fixedDigits? 2 r
    let (nanosecond, r) ← fraction? r
    pure (second, nanosecond, r)
  | r => some (0, 0, r)

/-- A time of day up to second 60. -/
def Time.read? (s : List Char) : Option (Time × List Char) := do
  let (hour, r) ← fixedDigits? 2 s
  let (minute, r) ← pairAfter? ':' r
  let (second, nanosecond, r) ← seconds? r
  guard (hour ≤ 23 ∧ minute ≤ 59 ∧ second ≤ 60)
  pure (⟨hour, minute, second, nanosecond⟩, r)

/-- What follows a date and a time: nothing, `Z`, or a sign with hours and minutes. -/
def Offset.read? : List Char → Option (Option Offset)
  | [] => some none
  | ['Z'] => some (some .utc)
  | ['z'] => some (some .utc)
  | c :: r => do
    guard (c = '+' ∨ c = '-')
    let (hour, r) ← fixedDigits? 2 r
    let (minute, r) ← pairAfter? ':' r
    guard (hour ≤ 23 ∧ minute ≤ 59 ∧ r.isEmpty)
    let count : Int := (hour * 60 + minute : Nat)
    pure (some (.minutes (if c = '-' then -count else count)))

/-- A moment that takes up the whole text. -/
def Moment.read? (s : List Char) : Option Moment :=
  match Date.read? s with
  | some (date, []) => some ⟨some date, none, none⟩
  | some (date, c :: r) => do
    guard (c = 'T' ∨ c = 't' ∨ c = ' ')
    let (time, r) ← Time.read? r
    let offset ← Offset.read? r
    pure ⟨some date, some time, offset⟩
  | none => do
    let (time, r) ← Time.read? s
    guard r.isEmpty
    pure ⟨none, some time, none⟩

end WorkerEnv.Toml
