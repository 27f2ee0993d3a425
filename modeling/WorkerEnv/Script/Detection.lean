/-
# WorkerEnv.Script.Detection -- which form a script has

A script is a module if it has a default export: the word `export` with `default` behind it, or with
a list behind it in which an item ends in `as default`. Comments and literals do not count. The
search goes from one `export` to the next, and what stands before an `export` is looked at only as
far back as the end of the `export` before it.
-/

import WorkerEnv.Script.Blanking
import WorkerEnv.Script.Format
import WorkerEnv.Text.Pieces
import WorkerEnv.Text.Search
import WorkerEnv.Text.Word

namespace WorkerEnv.Script

open Text

/-! ## Words -/

/-- The word that begins an export. -/
def exportWord : List Char := ['e', 'x', 'p', 'o', 'r', 't']

/-- The word that makes an export the default. -/
def defaultWord : List Char := ['d', 'e', 'f', 'a', 'u', 'l', 't']

/-- The word that gives an export another name. -/
def asWord : List Char := ['a', 's']

/-- Whether a word can begin after this text. -/
def endsOutsideWord (before : List Char) : Bool :=
  match before.getLast? with
  | some c => !(isWord c || c == '_' || c == '$')
  | none => true

/-- Whether a word can end before this text. -/
def beginsOutsideWord (rest : List Char) : Bool :=
  match rest with
  | c :: _ => !(isWord c || c == '_')
  | [] => true

/-! ## Default exports -/

/-- Whether the text begins with the word `default`. -/
def namesDefault (s : List Char) : Bool :=
  match afterPrefix? defaultWord s with
  | some rest => beginsOutsideWord rest
  | none => false

/-- Whether an item of an export list is exported as the default. -/
def isDefaultItem (item : List Char) : Bool := (words item).reverse.take 2 == [defaultWord, asWord]

/-- Whether the text begins with a list, up to its closing brace, that exports a default. -/
def listsDefault : List Char → Bool
  | '\x7b' :: r => (pieces (· == ',') (r.takeWhile (· != '\x7d'))).any isDefaultItem
  | _ => false

/-- Whether what follows the word `export` makes it a default export. -/
def isDefaultExport (after : List Char) : Bool :=
  let s := trimStart after
  namesDefault s || listsDefault s

/-- Whether there is a default export in code. -/
def hasDefaultExport (code : List Char) : Bool :=
  match _cut : cutFirst? exportWord code with
  | none => false
  | some (before, after) =>
    (endsOutsideWord before && isDefaultExport after) || hasDefaultExport after
termination_by code.length
decreasing_by
  rw [eq_of_cutFirst? _cut]
  simp only [List.length_append, exportWord, List.length_cons]
  omega

/-- The form of a script. -/
def formatOf (source : String) : Format :=
  if hasDefaultExport (blanked source.toList) then .modules else .serviceWorker

end WorkerEnv.Script
