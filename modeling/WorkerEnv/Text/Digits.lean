/-
# WorkerEnv.Text.Digits -- decimal numerals

Writing a natural number with at least so many digits, and reading a numeral of decimal digits.
-/

namespace WorkerEnv.Text

/-- Whether a character is one of the ten ASCII digits. -/
def isDigit (c : Char) : Bool := '0' ≤ c && c ≤ '9'

/-- The decimal numeral of `n`, with zeros in front up to `width` digits. -/
def padded (width n : Nat) : List Char :=
  let cs := Nat.toDigits 10 n
  List.replicate (width - cs.length) '0' ++ cs

theorem isDigit_of_mem_padded {width n : Nat} {c : Char} (h : c ∈ padded width n) : c.isDigit := by
  rcases List.mem_append.1 h with hzero | hdigit
  · obtain ⟨-, rfl⟩ := List.mem_replicate.1 hzero
    rfl
  · exact Nat.isDigit_of_mem_toDigits (by decide) (by decide) hdigit

/-- The value of a numeral in the given base; every character counts as the digit it stands for. -/
def numeral (base : Nat) (s : List Char) : Nat :=
  s.foldl (fun n c => n * base + digit c) 0
where
  /-- The digit that a character stands for, letters of either case counting from ten. -/
  digit (c : Char) : Nat :=
    let n := c.toNat
    if n ≤ 0x39 then n - 0x30 else if n ≤ 0x46 then n - 0x37 else n - 0x57

end WorkerEnv.Text
