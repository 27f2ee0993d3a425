/-
# WorkerEnv.Declaration.Json -- JSON values and their text

JSON as far as literal types need it. A number is kept as its text. The text of a value has no
blanks and keeps the order of the keys.
-/

import WorkerEnv.Text.Quoted

namespace WorkerEnv.Declaration

/-- A JSON value. -/
inductive Json where
  | null
  | boolean (b : Bool)
  | number (text : String)
  | string (s : String)
  | array (items : List Json)
  | object (entries : List (String × Json))
  deriving Inhabited, Repr

/-- The text of a truth value. -/
def booleanText (b : Bool) : String := if b then "true" else "false"

mutual

/-- The text of a value. -/
def Json.text : Json → String
  | .null => "null"
  | .boolean b => booleanText b
  | .number text => text
  | .string s => Text.quote s
  | .array items => "[" ++ ",".intercalate (itemTexts items) ++ "]"
  | .object entries => "\x7b" ++ ",".intercalate (entryTexts entries) ++ "\x7d"

/-- The texts of the items of an array. -/
def itemTexts : List Json → List String
  | [] => []
  | v :: vs => v.text :: itemTexts vs

/-- The texts of the entries of an object. -/
def entryTexts : List (String × Json) → List String
  | [] => []
  | (key, v) :: es => (Text.quote key ++ ":" ++ v.text) :: entryTexts es

end

end WorkerEnv.Declaration
