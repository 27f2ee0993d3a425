/-
# WorkerEnv.Decimal.Shortest -- the fewest digits that read back

Every positive double is the nearest double to a whole interval of real numbers. Of the decimals in
that interval the *shortest* ones have the fewest significant digits, and of those the one nearest
to the double is chosen; if two are equally near, the one with the even last digit. At most 17
digits are ever needed.

The interval of `m * 2 ^ e` reaches half-way to both neighbours. The lower neighbour is only half as
far away when `m` is the least significand of its binade. The ends belong to the interval exactly
when `m` is even, because a tie is rounded to the even significand. All of it is decided here in
quarters of `2 ^ e`, as comparisons of natural numbers.
-/

import WorkerEnv.Decimal.Double

namespace WorkerEnv.Decimal

/-- A positive decimal in scientific form: `d.ddd * 10 ^ exponent`, the first and the last digit
not zero. -/
structure Digits where
  digits : List Char
  exponent : Int
  deriving DecidableEq, Repr

/-! ## The decimal magnitude -/

/-- The integer `k` with `10 ^ k ≤ num / den < 10 ^ (k + 1)`. -/
def floorLog10 (num den : Nat) : Int :=
  if den ≤ num then (digitCount (num / den) : Int) - 1
  else -(digitCount ((den + num - 1) / num - 1) : Int)

/-- The fraction `num / den / 10 ^ p` as a numerator and a denominator. -/
def rescaled (num den : Nat) (p : Int) : Nat × Nat :=
  if 0 ≤ p then (num, den * Nat.pow 10 p.toNat) else (num * Nat.pow 10 (-p).toNat, den)

/-! ## The interval that rounds to a double -/

/-- The interval of fractions, in units of the value's own denominator, that round to a double:
its ends, the double itself, and whether the ends belong to it. -/
structure Interval where
  low : Nat
  value : Nat
  high : Nat
  den : Nat
  closed : Bool

/-- The interval of the positive double `m * 2 ^ e`. -/
def Interval.ofDouble (m : Nat) (e : Int) : Interval :=
  let low := if m = Double.significandBound / 2 ∧ Double.leastExponent < e then 4 * m - 1 else 4 * m - 2
  let (num, den) := shifted 1 1 (2 - e)
  { low := low * num, value := 4 * m * num, high := (4 * m + 2) * num, den := den,
    closed := m % 2 == 0 }

/-- Whether `c * 10 ^ p` lies in the interval. -/
def Interval.contains (i : Interval) (c : Nat) (p : Int) : Bool :=
  -- `c * 10 ^ p * den`, compared with the ends after both sides are cleared of denominators
  let (n, d) := if 0 ≤ p then (c * Nat.pow 10 p.toNat, 1) else (c, Nat.pow 10 (-p).toNat)
  let x := n * i.den
  if i.closed then i.low * d ≤ x && x ≤ i.high * d else i.low * d < x && x < i.high * d

/-- Of the two multiples of `10 ^ p` next to the value, those in the interval; of two such the
nearer one, and the even one if neither is nearer. -/
def Interval.nearest? (i : Interval) (p : Int) : Option Nat :=
  let (n, d) := rescaled i.value i.den p
  let below := n / d
  let up := if n % d = 0 then below else below + 1
  match i.contains below p, i.contains up p with
  | true, true =>
    let r := n % d
    if 2 * r < d then some below
    else if d < 2 * r then some up
    else if below % 2 = 0 then some below else some up
  | true, false => some below
  | false, true => some up
  | false, false => none

/-! ## The shortest decimal -/

/-- The scientific form of `c * 10 ^ p` for a positive `c`. -/
def Digits.ofScaled (c : Nat) (p : Int) : Digits :=
  let cs := Nat.toDigits 10 c
  { digits := (cs.reverse.dropWhile (· == '0')).reverse
    exponent := p + (cs.length : Int) - 1 }

/-- The shortest decimal that reads back as the positive double `m * 2 ^ e`, nearest to it among
those of its length. -/
def shortest (m : Nat) (e : Int) : Digits :=
  let i := Interval.ofDouble m e
  let k := floorLog10 i.value i.den
  let found := (List.range 17).findSome? fun (n : Nat) =>
    let p := k - n
    (i.nearest? p).map (Digits.ofScaled · p)
  found.getD ⟨['0'], 0⟩

end WorkerEnv.Decimal
