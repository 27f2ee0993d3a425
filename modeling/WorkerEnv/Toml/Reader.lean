/-
# WorkerEnv.Toml.Reader -- readers and repetition

A reader takes the rest of a text and gives what it found with what is left, or fails. The one loop
of the grammar is `all`: a step is taken again and again until it says that it was the last. Each
step that goes on takes at least one character, so as many steps as there are characters, and one to
stop, are always enough.
-/

namespace WorkerEnv.Toml

/-- A function from the rest of a text to what it found and what is left. -/
abbrev Reader (α : Type) := List Char → Option (α × List Char)

/-- What one step of a repetition found. -/
inductive Step (α : Type) where
  /-- An item, and there may be another. -/
  | more (item : α)
  /-- The last item. -/
  | last (item : α)
  /-- No further item. -/
  | stop

/-- At most as many steps in a row as there are characters in the first list. -/
def upTo {α : Type} (step : Reader (Step α)) : List Char → Reader (List α)
  | [], _ => none
  | _ :: fuel, s =>
    match step s with
    | none => none
    | some (.stop, r) => some ([], r)
    | some (.last a, r) => some ([a], r)
    | some (.more a, r) =>
      match upTo step fuel r with
      | none => none
      | some (as, r') => some (a :: as, r')

/-- The items of all steps up to the one that ends the repetition. The text itself, with one more
character, says how many steps are enough. -/
def all {α : Type} (step : Reader (Step α)) : Reader (List α) := fun s => upTo step ('\n' :: s) s

/-! ## White space and comments -/

/-- Space and tab, the only blanks within a line. -/
def isInlineBlank (c : Char) : Bool := c == ' ' || c == '\t'

/-- The rest after spaces and tabs. -/
def skipBlanks (s : List Char) : List Char := s.dropWhile isInlineBlank

/-- The characters that comments and strings may hold: tab, and everything that is not a control
character of ASCII. -/
def isPrintable (c : Char) : Bool := c == '\t' || (' ' ≤ c && c != '\x7f')

/-- The rest of the line after a `#`, up to but not including its end. -/
def comment : Reader Unit := fun s =>
  let inLine (c : Char) : Bool := c != '\n' && c != '\r'
  if (s.takeWhile inLine).all isPrintable then some ((), s.dropWhile inLine) else none

/-- A line feed, or a carriage return with a line feed. -/
def newline : Reader Unit
  | '\n' :: r => some ((), r)
  | '\r' :: '\n' :: r => some ((), r)
  | _ => none

/-- The rest after blanks, comments and line ends. -/
def filler (s : List Char) : Option (List Char) :=
  (all step s).map Prod.snd
where
  /-- One blank, comment or line end. -/
  step : Reader (Step Unit)
    | '#' :: r => (comment r).map fun (u, r) => (.more u, r)
    | c :: r =>
      if isInlineBlank c then some (.more (), r)
      else
        match newline (c :: r) with
        | some (u, r) => some (.more u, r)
        | none => some (.stop, c :: r)
    | [] => some (.stop, [])

/-- The end of a line: blanks, perhaps a comment, then a line end or the end of the text. -/
def lineEnd : Reader Unit := fun s => do
  let s := skipBlanks s
  let s ← match s with
    | '#' :: r => (comment r).map Prod.snd
    | r => some r
  match s with
  | [] => some ((), [])
  | r => newline r

end WorkerEnv.Toml
