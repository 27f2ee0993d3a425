/-
# WorkerEnv.Toml.Strings -- the four kinds of string

A *basic* string stands between double quotes and knows escapes, a *literal* string stands between
single quotes and knows none. Three marks instead of one make the string run over several lines: a
line end right after the opening marks is dropped, and up to two marks may stand before the closing
three. In a basic string of several lines a backslash at the end of a line swallows the line end
and all blanks and line ends after it.
-/

import WorkerEnv.Toml.Reader
import WorkerEnv.Text.Digits
import WorkerEnv.Text.Quoted

namespace WorkerEnv.Toml

open Text

/-- The single quote. -/
def apostrophe : Char := '\x27'

/-! ## Escapes -/

/-- Whether a character is a hexadecimal digit of either case. -/
def isHexDigit (c : Char) : Bool :=
  isDigit c || ('a' ≤ c && c ≤ 'f') || ('A' ≤ c && c ≤ 'F')

/-- The character whose code point is written with exactly `n` hexadecimal digits. -/
def codePoint (n : Nat) : Reader Char := fun s =>
  let front := s.take n
  let code := numeral 16 front
  if front.length = n ∧ front.all isHexDigit ∧ code.isValidChar then
    some (Char.ofNat code, s.drop n)
  else none

/-- What a backslash stands for together with what follows it. -/
def escape : Reader Char
  | [] => none
  | c :: r =>
    if c = quoteMark then some (quoteMark, r)
    else if c = '\\' then some ('\\', r)
    else if c = 'b' then some ('\x08', r)
    else if c = 't' then some ('\t', r)
    else if c = 'n' then some ('\n', r)
    else if c = 'f' then some ('\x0c', r)
    else if c = 'r' then some ('\r', r)
    else if c = 'e' then some ('\x1b', r)
    else if c = 'x' then codePoint 2 r
    else if c = 'u' then codePoint 4 r
    else if c = 'U' then codePoint 8 r
    else none

/-! ## Strings of one line -/

/-- The rest of a basic string after its opening quote. -/
def basicString : Reader (List Char) := all step
where
  /-- One character, one escape, or the closing quote. -/
  step : Reader (Step Char)
    | [] => none
    | c :: r =>
      if c = quoteMark then some (.stop, r)
      else if c = '\\' then (escape r).map fun (e, r) => (.more e, r)
      else if isPrintable c then some (.more c, r)
      else none

/-- The rest of a literal string after its opening quote. -/
def literalString : Reader (List Char) := all step
where
  /-- One character or the closing quote. -/
  step : Reader (Step Char)
    | [] => none
    | c :: r =>
      if c = apostrophe then some (.stop, r)
      else if isPrintable c then some (.more c, r)
      else none

/-! ## Strings of several lines -/

/-- The rest after the line end that may follow the opening marks. -/
def afterOpening (s : List Char) : List Char :=
  match newline s with
  | some (_, r) => r
  | none => s

/-- A run of quote marks inside a string of several lines. Fewer than three are text; three or more
close the string, and up to two of them are text before the closing three. -/
def marks (mark : Char) : Reader (Step (List Char)) := fun s =>
  let run := (s.takeWhile (· == mark)).length
  if run < 3 then some (.more (List.replicate run mark), s.drop run)
  else
    let inside := min (run - 3) 2
    some (.last (List.replicate inside mark), s.drop (inside + 3))

/-- A line end inside a string, as it is written, or a printable character. -/
def lineOrPrintable : Reader (Step (List Char))
  | '\n' :: r => some (.more ['\n'], r)
  | '\r' :: '\n' :: r => some (.more ['\r', '\n'], r)
  | c :: r => if isPrintable c then some (.more [c], r) else none
  | [] => none

/-- The rest after a backslash at the end of a line: blanks, a line end, and then every blank and
line end that follows. -/
def swallow (s : List Char) : Option (List Char) := do
  let (_, r) ← newline (skipBlanks s)
  let (_, r) ← all step r
  pure r
where
  /-- One blank or line end. -/
  step : Reader (Step Unit)
    | c :: r =>
      if isInlineBlank c then some (.more (), r)
      else
        match newline (c :: r) with
        | some (u, r) => some (.more u, r)
        | none => some (.stop, c :: r)
    | [] => some (.stop, [])

/-- The rest of a basic string of several lines after its opening marks. -/
def basicText : Reader (List Char) := fun s =>
  (all step (afterOpening s)).map fun (found, r) => (found.flatten, r)
where
  /-- A run of quotes, an escape, a swallowed line end, a line end or a character. -/
  step : Reader (Step (List Char))
    | [] => none
    | c :: r =>
      if c = quoteMark then marks quoteMark (c :: r)
      else if c = '\\' then
        match escape r with
        | some (e, r) => some (.more [e], r)
        | none => (swallow r).map fun r => (.more [], r)
      else lineOrPrintable (c :: r)

/-- The rest of a literal string of several lines after its opening marks. -/
def literalText : Reader (List Char) := fun s =>
  (all step (afterOpening s)).map fun (found, r) => (found.flatten, r)
where
  /-- A run of quotes, a line end or a character. -/
  step : Reader (Step (List Char))
    | [] => none
    | c :: r => if c = apostrophe then marks apostrophe (c :: r) else lineOrPrintable (c :: r)

/-! ## Any string -/

/-- A string of any of the four kinds. -/
def anyString : Reader (List Char)
  | c :: r =>
    let three := r.head? == some c && r.tail.head? == some c
    if c = quoteMark then if three then basicText (r.drop 2) else basicString r
    else if c = apostrophe then if three then literalText (r.drop 2) else literalString r
    else none
  | [] => none

/-- A string of one line. -/
def lineString : Reader (List Char)
  | c :: r =>
    if c = quoteMark then basicString r
    else if c = apostrophe then literalString r
    else none
  | [] => none

end WorkerEnv.Toml
