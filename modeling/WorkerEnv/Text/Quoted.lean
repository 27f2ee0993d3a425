/-
# WorkerEnv.Text.Quoted -- quoted strings

A quoted string stands between double quotes. Inside it the quote and the backslash are escaped,
and so is every character below U+0020: five of those have a short escape, the others are written
`\u00` with two lower-case hexadecimal digits. Nothing else is escaped, so U+007F, the line
separators and all other characters stand for themselves.
-/

namespace WorkerEnv.Text

/-- The double quote. -/
def quoteMark : Char := '\x22'

/-- A lower-case hexadecimal digit. -/
def hexDigit (n : Nat) : Char := if n < 10 then Char.ofNat (0x30 + n) else Char.ofNat (0x57 + n)

/-- How one character is written inside a quoted string. -/
def escaped (c : Char) : List Char :=
  if c = quoteMark then ['\\', quoteMark]
  else if c = '\\' then ['\\', '\\']
  else if c = '\x08' then ['\\', 'b']
  else if c = '\t' then ['\\', 't']
  else if c = '\n' then ['\\', 'n']
  else if c = '\x0c' then ['\\', 'f']
  else if c = '\r' then ['\\', 'r']
  else if c.toNat < 0x20 then
    ['\\', 'u', '0', '0', hexDigit (c.toNat / 16), hexDigit (c.toNat % 16)]
  else [c]

/-- The quoted form of a text. -/
def quoted (s : List Char) : List Char := quoteMark :: s.flatMap escaped ++ [quoteMark]

/-- The quoted form of a string. -/
def quote (s : String) : String := String.ofList (quoted s.toList)

end WorkerEnv.Text
