/-
# WorkerEnv.Manifest.Place -- where a name stands in the text of a manifest

Problems are found in the decoded manifest, which no longer knows positions, so the position of a
name is searched in the text. `placeOfKey` goes by the shape of lines: the key at the start of a
line or in a header, with an equals sign, a closing bracket or a dot behind it, on the last such
line. `placeOfName` prefers the last occurrence of the name in double quotes.
-/

import WorkerEnv.Text.Blank
import WorkerEnv.Text.Lines
import WorkerEnv.Text.Quoted
import WorkerEnv.Text.Search
import WorkerEnv.Text.Size

namespace WorkerEnv.Manifest

open Text

/-! ## Keys -/

/-- Whether what follows a key makes it the key of an entry or a part of a header. -/
def closesKey (rest : List Char) : Bool :=
  match trimStart rest with
  | c :: _ => c == '=' || c == ']' || c == '.'
  | [] => false

/-- The ways in which a key can stand on a line: at its start, after two brackets, after one. Each
gives what stands before the key and what follows it. -/
def keyCandidates (key line : List Char) : List (List Char × List Char) :=
  let blanks := line.takeWhile isBlank
  let body := trimStart line
  let inHeader (opening : List Char) : Option (List Char × List Char) := do
    let inside ← afterPrefix? opening body
    let (before, rest) ← cutFirst? key inside
    pure (blanks ++ opening ++ before, rest)
  [(afterPrefix? key body).map (blanks, ·), inHeader ['[', '['], inHeader ['[']].filterMap id

/-- What stands before the key on a line that has it. -/
def beforeKey? (key line : List Char) : Option (List Char) :=
  ((keyCandidates key line).find? fun cut => closesKey cut.2).map (·.1)

/-- The place of a key on the last of the lines that have it. The first of the lines begins
`offset` bytes into the text. -/
def placeOnLines (key : List Char) (offset : Nat) : List (List Char) → Option Span
  | [] => none
  | line :: rest =>
    match placeOnLines key (offset + byteSize line) rest with
    | some span => some span
    | none => (beforeKey? key line).map fun before => ⟨offset + byteSize before, byteSize key⟩

/-- The place of a key in a text. -/
def placeOfKey (text key : List Char) : Option Span := placeOnLines key 0 (fullLines text)

/-! ## Names -/

/-- The place of a name in a text: in quotes if it stands in quotes anywhere, else as a key. -/
def placeOfName (text name : List Char) : Option Span :=
  match cutLast? (quoteMark :: name ++ [quoteMark]) text with
  | some (before, _) => some ⟨byteSize before + byteSize [quoteMark], byteSize name⟩
  | none => placeOfKey text name

end WorkerEnv.Manifest
