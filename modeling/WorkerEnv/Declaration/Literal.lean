/-
# WorkerEnv.Declaration.Literal -- types that pin a value

A variable has the type of its value and no other: the JSON text of the value. A moment counts as
the string of its text. JSON has no text for a NaN or an infinity; inside an array or a table such a
float is `null`, and on its own it has the type `number`. A number that cannot be read never gets
into a variable; it is `null` everywhere.
-/

import WorkerEnv.Decimal.Layout
import WorkerEnv.Declaration.Json
import WorkerEnv.Toml.Value

namespace WorkerEnv.Declaration

open Toml

/-- The text of a finite float. -/
def floatText? (x : Decimal.Double) : Option String :=
  (Decimal.Layout.json.text? x).map String.ofList

mutual

/-- A value as JSON. -/
def asJson : Value → Json
  | .string s => .string s
  | .integer i => .number (toString i)
  | .float x => (floatText? x).elim .null .number
  | .boolean b => .boolean b
  | .moment m => .string (String.ofList m.text)
  | .unreadable => .null
  | .array items => .array (itemsAsJson items)
  | .table entries => .object (entriesAsJson entries)

/-- `asJson` of every item. -/
def itemsAsJson : List Value → List Json
  | [] => []
  | v :: vs => asJson v :: itemsAsJson vs

/-- `asJson` under every key. -/
def entriesAsJson : List (String × Value) → List (String × Json)
  | [] => []
  | (key, v) :: es => (key, asJson v) :: entriesAsJson es

end

/-- The type that pins a value. -/
def pinnedType : Value → String
  | .string s => Text.quote s
  | .integer i => toString i
  | .float x => (floatText? x).getD "number"
  | .boolean b => booleanText b
  | .moment m => Text.quote (String.ofList m.text)
  | .unreadable => "null"
  | .array items => (asJson (.array items)).text
  | .table entries => (asJson (.table entries)).text

end WorkerEnv.Declaration
