/-
# WorkerEnv.Toml.Scalar -- numbers, truth values and moments

An unquoted value is one stretch of text. It is a truth value, a moment, or a number. In a number an
underscore may stand between two digits and nowhere else; a decimal whole part has no zero in front;
a prefix for base 16, 8 or 2 allows no sign. A float that rounds to an infinity, an integer of more
than 128 bits, and an integer in which an underscore is followed by letters that are no digits of
its base are well formed but unreadable.
-/

import WorkerEnv.Toml.Value
import WorkerEnv.Toml.Strings
import WorkerEnv.Text.Pieces

namespace WorkerEnv.Toml

open Text Decimal

/-! ## Underscores -/

/-- The text of a number without its underscores, each of which has to stand between two digits. -/
def ungrouped? (isGroupDigit : Char → Bool) (s : List Char) : Option (List Char) :=
  let parts := pieces (· == '_') s
  if parts.dropLast.all (·.getLast?.any isGroupDigit) && parts.tail.all (·.head?.any isGroupDigit)
  then some parts.flatten
  else none

/-! ## Numbers -/

/-- A leading sign, and whether it is a minus. -/
def splitSign : List Char → Option Bool × List Char
  | '+' :: r => (some false, r)
  | '-' :: r => (some true, r)
  | r => (none, r)

/-- A whole number from its sign and its digits in a base, if they are digits. -/
def whole? (base : Nat) (isBaseDigit : Char → Bool) (s : List Char) : Option Int :=
  let (sign, digits) := splitSign s
  let n : Int := numeral base digits
  if digits.isEmpty || !digits.all isBaseDigit then none
  else some (if sign = some true then -n else n)

/-- An integer as a value: readable within 128 bits, with a sign or without. -/
def integer : Option Int → Value
  | some i => if -Int.pow 2 127 ≤ i ∧ i < Int.pow 2 128 then .integer i else .unreadable
  | none => .unreadable

/-- An integer in another base, given by its digits. -/
def based? (base : Nat) (isBaseDigit : Char → Bool) (s : List Char) : Option Value := do
  guard (s.all fun c => isBaseDigit c || c == '_')
  let digits ← ungrouped? isHexDigit s
  pure (integer (whole? base isBaseDigit digits))

/-- Whether digits have no zero in front, unless it is the only digit. -/
def noZeroInFront (digits : List Char) : Bool := digits.length == 1 || digits.head? != some '0'

/-- A decimal integer. What follows an underscore is looked at only for its first character and for
the one before the next underscore. -/
def decimalInteger? (s : List Char) : Option Value := do
  let text ← ungrouped? isHexDigit s
  guard (noZeroInFront (splitSign text).2)
  pure (integer (whole? 10 isDigit text))

/-- Whether a character begins an exponent. -/
def isExponentMark (c : Char) : Bool := c == 'e' || c == 'E'

/-- The digits after the point, if there is a point. -/
def fractionDigits? : List Char → Option (List Char)
  | [] => some []
  | '.' :: digits => if digits.isEmpty || !digits.all isDigit then none else some digits
  | _ => none

/-- The number after the mark of an exponent, if there is a mark. -/
def exponent? : List Char → Option Int
  | [] => some 0
  | _ :: s => whole? 10 isDigit s

/-- A float. It has a whole part, a fraction or an exponent or both, and nothing else. -/
def decimalFloat? (s : List Char) : Option Value := do
  let (sign, r) := splitSign (← ungrouped? isDigit s)
  let mantissa := r.takeWhile (!isExponentMark ·)
  let exponent ← exponent? (r.dropWhile (!isExponentMark ·))
  let whole := mantissa.takeWhile (· != '.')
  let fraction ← fractionDigits? (mantissa.dropWhile (· != '.'))
  guard (!whole.isEmpty && whole.all isDigit && noZeroInFront whole)
  let x := Double.ofDecimal (sign == some true) (numeral 10 (whole ++ fraction))
    (exponent - fraction.length)
  pure (if x.isInfinite then .unreadable else .float x)

/-- A decimal number. It begins with a digit after its sign, and a point or an exponent makes it a
float. -/
def decimal? (s : List Char) : Option Value :=
  let unsigned := (splitSign s).2
  let rest := unsigned.dropWhile isDigit
  if !unsigned.head?.any isDigit then none
  else if rest.any fun c => c == '.' || isExponentMark c then decimalFloat? s
  else if rest.isEmpty || rest.head? == some '_' then decimalInteger? s
  else none

/-- A number of any form. -/
def number? (s : List Char) : Option Value :=
  match splitSign s with
  | (none, '0' :: 'x' :: r) => based? 16 isHexDigit r
  | (none, '0' :: 'o' :: r) => based? 8 (fun c => '0' ≤ c && c ≤ '7') r
  | (none, '0' :: 'b' :: r) => based? 2 (fun c => c == '0' || c == '1') r
  | (sign, r) =>
    if r = ['i', 'n', 'f'] then some (.float (.infinite (sign == some true)))
    else if r = ['n', 'a', 'n'] then some (.float .nan)
    else decimal? s

/-! ## Unquoted values -/

/-- The value of an unquoted stretch of text. -/
def scalar? (s : List Char) : Option Value :=
  if s = ['t', 'r', 'u', 'e'] then some (.boolean true)
  else if s = ['f', 'a', 'l', 's', 'e'] then some (.boolean false)
  else
    match Moment.read? s with
    | some m => some (.moment m)
    | none => number? s

/-- The characters that end an unquoted value. -/
def endsScalar (c : Char) : Bool :=
  c == ',' || c == '=' || c == '[' || c == ']' || c == '\x7b' || c == '\x7d' || c == '#' ||
    c == ' ' || c == '\t' || c == '\n' || c == '\r'

/-- An unquoted value. A date takes in the time that follows it after a single space. -/
def scalar : Reader Value := fun s =>
  let run := s.takeWhile (!endsScalar ·)
  let rest := s.dropWhile (!endsScalar ·)
  match Date.read? run, rest with
  | some (_, []), ' ' :: c :: r =>
    if isDigit c then
      let time := (c :: r).takeWhile (!endsScalar ·)
      (scalar? (run ++ ' ' :: time)).map (·, (c :: r).dropWhile (!endsScalar ·))
    else (scalar? run).map (·, rest)
  | _, _ => (scalar? run).map (·, rest)

end WorkerEnv.Toml
