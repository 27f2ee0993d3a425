/-
# WorkerEnv.Toml.Element -- keys and values

A key is bare or quoted, and dots with blanks around them join at most `longestKey` keys to a path.
A value is a string, an unquoted scalar, an array or an inline table. Blanks, comments and line ends
may stand between any two parts of an array or an inline table, and a comma may follow the last
item. An inline table obeys the rule of keys with values, and nothing outside can extend it. Arrays
and inline tables nest at most `deepest` levels.
-/

import WorkerEnv.Toml.Scalar
import WorkerEnv.Toml.Tree

namespace WorkerEnv.Toml

open Text

/-! ## Keys -/

/-- The characters of a bare key. -/
def isBareKey (c : Char) : Bool := c.isAlphanum || c == '_' || c == '-'

/-- One part of a key. -/
def simpleKey : Reader String := fun s =>
  match lineString s with
  | some (key, r) => some (String.ofList key, r)
  | none =>
    match s.takeWhile isBareKey with
    | [] => none
    | key => some (String.ofList key, s.dropWhile isBareKey)

/-- How many parts a key may have. -/
def longestKey : Nat := 80

/-- The parts of a key with its dots, and the blanks on either side of them. -/
def keyParts : Reader KeyPath := all fun s =>
  (simpleKey (skipBlanks s)).map fun (key, r) =>
    match skipBlanks r with
    | '.' :: r => (.more key, r)
    | r => (.last key, r)

/-- A key with its dots, if it is not too long. -/
def dottedKey : Reader KeyPath := fun s =>
  (keyParts s).filter (·.1.length ≤ longestKey)

/-! ## Arrays and inline tables -/

/-- What follows an item: a comma and perhaps another item, or the closing bracket. -/
def separated {α : Type} (close : Char) (item : α) (s : List Char) : Option (Step α × List Char) :=
  match filler s with
  | some (c :: r) =>
    if c = ',' then some (.more item, r) else if c = close then some (.last item, r) else none
  | _ => none

/-- The items up to a closing bracket. -/
def enclosed {α : Type} (close : Char) (item : Reader α) : Reader (List α) := all fun s =>
  match filler s with
  | some (c :: r) =>
    if c = close then some (.stop, r)
    else
      match item (c :: r) with
      | some (a, r) => separated close a r
      | none => none
  | _ => none

/-- A key, an equals sign and a value, in an inline table. -/
def inlinePair (item : Reader Value) : Reader (KeyPath × Value) := fun s => do
  let (path, r) ← dottedKey s
  match ← filler r with
  | '=' :: r =>
    let (v, r) ← item (← filler r)
    pure ((path, v), r)
  | _ => none

/-- The rest of an array after its opening bracket. -/
def array (item : Reader Value) : Reader Value := fun s =>
  (enclosed ']' item s).map fun (items, r) => (.array items, r)

/-- The rest of an inline table after its opening brace. -/
def inlineTable (item : Reader Value) : Reader Value := fun s => do
  let (pairs, r) ← enclosed '\x7d' (inlinePair item) s
  let entries ← Entries.assignAll [] pairs
  pure (.table (finishedEntries entries), r)

/-! ## Values -/

/-- A value that holds no other: a string or a scalar. -/
def plain : Reader Value := fun s =>
  match s with
  | [] => none
  | c :: _ =>
    if c = quoteMark ∨ c = apostrophe then
      (anyString s).map fun (text, r) => (.string (String.ofList text), r)
    else scalar s

/-- A value in which arrays and inline tables nest at most so many levels. -/
def element : Nat → Reader Value
  | 0 => plain
  | depth + 1 => fun s =>
    match s with
    | '[' :: r => array (element depth) r
    | '\x7b' :: r => inlineTable (element depth) r
    | _ => plain s

/-- How many levels arrays and inline tables may nest. -/
def deepest : Nat := 80

end WorkerEnv.Toml
