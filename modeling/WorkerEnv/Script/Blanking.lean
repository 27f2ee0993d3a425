/-
# WorkerEnv.Script.Blanking -- code without comments and literals

`blanked` replaces every block comment and every literal by one space and every line comment by
nothing, so that what is left is code. A line comment ends before its line feed, which stays. A
literal runs to the next quote of its own kind that no backslash escapes, over line feeds too; a
comment or literal that does not end takes the rest of the text. Regular expressions and the code
inside templates are not recognised.
-/

import WorkerEnv.Text.Quoted

namespace WorkerEnv.Script

/-- Where in a script the next character stands. -/
inductive Mode where
  | code
  | lineComment
  /-- In a block comment; `star` says that its last character is a star. -/
  | blockComment (star : Bool)
  /-- In a literal; `escaping` says that its last character is a backslash that escapes. -/
  | literal (quote : Char) (escaping : Bool)
  deriving DecidableEq, Repr

/-- The three characters that begin and end literals. -/
def isQuote (c : Char) : Bool := c == Text.quoteMark || c == '\x27' || c == '\x60'

/-- What is left of a text that begins in the given mode. -/
def blankedIn : Mode → List Char → List Char
  | _, [] => []
  | .code, '/' :: '/' :: r => blankedIn .lineComment r
  | .code, '/' :: '*' :: r => ' ' :: blankedIn (.blockComment false) r
  | .code, c :: r =>
    if isQuote c then ' ' :: blankedIn (.literal c false) r else c :: blankedIn .code r
  | .lineComment, c :: r => if c = '\n' then c :: blankedIn .code r else blankedIn .lineComment r
  | .blockComment star, c :: r =>
    if star && c == '/' then blankedIn .code r else blankedIn (.blockComment (c == '*')) r
  | .literal quote escaping, c :: r =>
    if escaping then blankedIn (.literal quote false) r
    else if c = '\\' then blankedIn (.literal quote true) r
    else if c = quote then blankedIn .code r
    else blankedIn (.literal quote false) r

/-- The code of a script: its text without comments and literals. -/
def blanked (source : List Char) : List Char := blankedIn .code source

end WorkerEnv.Script
