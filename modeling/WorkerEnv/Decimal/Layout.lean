/-
# WorkerEnv.Decimal.Layout -- writing a double

The decisions of one number format, kept together in a record: for which decimal exponents a number
is written positionally, and how it is written otherwise. `Layout.json` is the format of the
literal types: positional from `0.00001` up to sixteen digits before the point, always with a point
and a digit after it, and beyond that scientific with a signed exponent.
-/

import WorkerEnv.Decimal.Shortest

namespace WorkerEnv.Decimal

/-- The choices that a format makes about doubles. -/
structure Layout where
  /-- The least decimal exponent that is written positionally. -/
  leastPositional : Int
  /-- The greatest decimal exponent that is written positionally. -/
  greatestPositional : Int
  /-- What stands before the exponent's digits when it is not negative. -/
  plus : List Char
  /-- What follows a whole number that is written positionally. -/
  whole : List Char

/-- The format of numbers in literal types. -/
def Layout.json : Layout where
  leastPositional := -5
  greatestPositional := 15
  plus := ['+']
  whole := ['.', '0']

/-- Positional notation: the point stands where the exponent says. -/
def Layout.positional (l : Layout) (d : Digits) : List Char :=
  if d.exponent < 0 then
    ['0', '.'] ++ List.replicate ((-d.exponent).toNat - 1) '0' ++ d.digits
  else
    let n := d.exponent.toNat + 1
    let front := d.digits.take n ++ List.replicate (n - d.digits.length) '0'
    match d.digits.drop n with
    | [] => front ++ l.whole
    | rest => front ++ '.' :: rest

/-- Scientific notation: one digit, the others after a point if there are any, the exponent. -/
def Layout.scientific (l : Layout) (d : Digits) : List Char :=
  let mantissa :=
    match d.digits with
    | [] => []
    | [c] => [c]
    | c :: cs => c :: '.' :: cs
  let sign := if d.exponent < 0 then ['-'] else l.plus
  mantissa ++ 'e' :: sign ++ Nat.toDigits 10 d.exponent.natAbs

/-- The text of a positive decimal. -/
def Layout.write (l : Layout) (d : Digits) : List Char :=
  if l.leastPositional ≤ d.exponent ∧ d.exponent ≤ l.greatestPositional then l.positional d
  else l.scientific d

/-- The text of a finite double, or nothing for a NaN or an infinity. A zero keeps its sign. -/
def Layout.text? (l : Layout) : Double → Option (List Char)
  | .nan => none
  | .infinite _ => none
  | .finite negative m e =>
    let body := if m = 0 then '0' :: l.whole else l.write (shortest m e)
    some (if negative then '-' :: body else body)

end WorkerEnv.Decimal
