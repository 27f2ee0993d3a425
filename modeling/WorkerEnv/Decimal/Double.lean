/-
# WorkerEnv.Decimal.Double -- binary floating-point numbers as data

A double is a NaN, an infinity, or a sign with `significand * 2 ^ exponent`. The numbers are kept
as natural numbers and integers, so rounding is exact arithmetic and can be reasoned about:
`ofRatio` rounds a positive fraction to the nearest double, ties going to the even significand.

A finite double is in *normal position* when its significand has 53 bits, or fewer with the least
exponent, -1074.
-/

namespace WorkerEnv.Decimal

/-- A binary64 number. -/
inductive Double where
  | nan
  | infinite (negative : Bool)
  | finite (negative : Bool) (significand : Nat) (exponent : Int)
  deriving DecidableEq, Repr

namespace Double

/-- The least exponent of a finite double. -/
def leastExponent : Int := -1074

/-- The greatest exponent of a finite double. -/
def greatestExponent : Int := 971

/-- One more than the greatest significand. -/
def significandBound : Nat := Nat.pow 2 53

/-- A zero. -/
def zero (negative : Bool) : Double := .finite negative 0 leastExponent

/-- Whether the number is neither a NaN nor an infinity. -/
def isFinite : Double → Bool
  | .finite .. => true
  | _ => false

/-- Whether the number is an infinity. -/
def isInfinite : Double → Bool
  | .infinite _ => true
  | _ => false

end Double

/-! ## Rounding -/

/-- The fraction `num / den / 2 ^ e` as a numerator and a denominator. -/
def shifted (num den : Nat) (e : Int) : Nat × Nat :=
  if 0 ≤ e then (num, den * Nat.pow 2 e.toNat) else (num * Nat.pow 2 (-e).toNat, den)

/-- The natural number nearest to `num / den`; of two equally near ones the even one. -/
def roundHalfEven (num den : Nat) : Nat :=
  let q := num / den
  let r := num % den
  if 2 * r < den then q
  else if den < 2 * r then q + 1
  else if q % 2 = 0 then q else q + 1

theorem roundHalfEven_bounds (num : Nat) {den : Nat} (h : 0 < den) :
    2 * (roundHalfEven num den * den) ≤ 2 * num + den ∧
      2 * num ≤ 2 * (roundHalfEven num den * den) + den := by
  have hd : den * (num / den) + num % den = num := Nat.div_add_mod num den
  have hr : num % den < den := Nat.mod_lt num h
  have hm : den * (num / den) = num / den * den := Nat.mul_comm _ _
  have hs : (num / den + 1) * den = num / den * den + den := Nat.succ_mul _ _
  simp only [roundHalfEven]
  split
  · omega
  · split
    · omega
    · split <;> omega

/-- The double nearest to the positive fraction `num / den`, or an infinity when the fraction
rounds past the greatest double. -/
def Double.ofRatio (negative : Bool) (num den : Nat) : Double :=
  if num = 0 then zero negative
  else
    -- `num / den` lies strictly between `2 ^ (k - 1)` and `2 ^ (k + 1)`
    let k : Int := (num.log2 : Int) - (den.log2 : Int)
    let e₀ := max (k - 53) leastExponent
    let (n₀, d₀) := shifted num den e₀
    let e := if significandBound ≤ n₀ / d₀ then e₀ + 1 else e₀
    let (n, d) := shifted num den e
    let m := roundHalfEven n d
    let (m, e) := if m = significandBound then (significandBound / 2, e + 1) else (m, e)
    if greatestExponent < e then .infinite negative else .finite negative m e

/-- How many decimal digits a natural number has; zero has one. -/
def digitCount (n : Nat) : Nat := (Nat.toDigits 10 n).length

/-- The double nearest to `digits * 10 ^ exponent`. Beyond the two bounds on the magnitude the
answer is settled by the ranges of the format alone, so no large power is formed there. -/
def Double.ofDecimal (negative : Bool) (digits : Nat) (exponent : Int) : Double :=
  let magnitude := (digitCount digits : Int) + exponent
  if digits = 0 ∨ magnitude < -330 then zero negative
  else if 310 < magnitude then .infinite negative
  else if 0 ≤ exponent then ofRatio negative (digits * Nat.pow 10 exponent.toNat) 1
  else ofRatio negative digits (Nat.pow 10 (-exponent).toNat)

end WorkerEnv.Decimal
