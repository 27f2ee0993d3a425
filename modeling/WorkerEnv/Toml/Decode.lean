/-
# WorkerEnv.Toml.Decode -- reading values as what they stand for

A decoder says what a value stands for, or that it has the wrong shape. A record may be written in
two ways: as a table, where a field that is left out is absent and a key that is no field is passed
over, or as an array with its fields in order, which may stop early only before fields that have a
default.

A value is read in one of two ways. Where it stands in the document it is read straight through, and
what comes after the last part that is wanted is not even looked at. Where it is first held and only
then read, nothing may be left over.
-/

import WorkerEnv.Toml.Value

namespace WorkerEnv.Toml

/-- How a value is read. -/
inductive Reading where
  /-- Where it stands; what comes after the last part that is wanted is not looked at. -/
  | direct
  /-- After it has been held; no part may be left over. -/
  | held
  deriving DecidableEq, Repr

/-- A reading of a value, which fails on a value of the wrong shape. -/
abbrev Decoder (α : Type) := Reading → Value → Option α

/-! ## Simple shapes -/

/-- A string. -/
def asText : Decoder String
  | _, .string s => some s
  | _, _ => none

/-- A truth value. -/
def asFlag : Decoder Bool
  | _, .boolean b => some b
  | _, _ => none

/-- An array of things of one kind. -/
def listOf {α : Type} (item : Decoder α) : Decoder (List α)
  | reading, .array items => items.mapM (item reading)
  | _, _ => none

/-- A table of things of one kind under arbitrary keys. -/
def tableOf {α : Type} (item : Decoder α) : Decoder (List (String × α)) := fun reading v =>
  v.asTable?.bind fun entries => entries.mapM fun (key, v) => (item reading v).map (key, ·)

/-- The name of an alternative: a string, or the only key of a table with an empty table under it.
Read directly, an empty array under the key will do as well. -/
def asChoice : Decoder String
  | _, .string name => some name
  | _, .table [(name, .table [])] => some name
  | .direct, .table [(name, .array [])] => some name
  | _, _ => none

/-! ## Values to keep -/

/-- The moment of a table that is written as the table of a moment: the text under `momentKey`, and
what comes after it. -/
def momentOf? (reading : Reading) (text : Value) (rest : Table) : Option Moment :=
  match reading, text, rest with
  | .direct, .string s, _ => Moment.read? s.toList
  | .held, .string s, [] => Moment.read? s.toList
  | _, _, _ => none

mutual

/-- A value to keep as it is. Its integers have to fit a word. A table that begins with `momentKey`
is no table but the moment that it is written as. -/
def asValue : Decoder Value
  | _, .unreadable => none
  | _, .integer i => if fitsWord i then some (.integer i) else none
  | reading, .array items => (asValues reading items).map .array
  | _, .table [] => some (.table [])
  | reading, .table ((key, v) :: rest) =>
    if key = momentKey then (momentOf? reading v rest).map .moment
    else do
      let v ← asValue reading v
      let rest ← asEntries reading rest
      pure (.table ((key, v) :: rest))
  | _, v => some v

/-- `asValue` of every item. -/
def asValues (reading : Reading) : List Value → Option (List Value)
  | [] => some []
  | v :: vs => do
    let v ← asValue reading v
    let vs ← asValues reading vs
    pure (v :: vs)

/-- `asValue` under every key. -/
def asEntries (reading : Reading) : List (String × Value) → Option (List (String × Value))
  | [] => some []
  | (key, v) :: es => do
    let v ← asValue reading v
    let es ← asEntries reading es
    pure ((key, v) :: es)

end

/-! ## Records -/

/-- The fields of a record that are there, by name. -/
structure Fields where
  entries : Table
  reading : Reading
  /-- Whether the record was written as an array. -/
  inOrder : Bool

/-- The fields of a record that has the given fields. What stands under other keys has to be
readable. -/
def Fields.ofValue? (keys : List String) : Decoder Fields
  | .direct, .array items => some ⟨keys.zip items, .direct, true⟩
  | .held, .array items =>
    if items.length ≤ keys.length then some ⟨keys.zip items, .held, true⟩ else none
  | reading, v => do
    let entries ← v.asTable?
    guard (entries.all fun (key, v) => keys.contains key || v.isReadable)
    pure ⟨entries, reading, false⟩

/-- A field with a default. -/
def Fields.orElse {α : Type} (f : Fields) (key : String) (d : Decoder α) (default : α) :
    Option α :=
  match f.entries.lookup key with
  | some v => d f.reading v
  | none => some default

/-- A field that a table may leave out and an array may not. -/
def Fields.optional {α : Type} (f : Fields) (key : String) (d : Decoder α) : Option (Option α) :=
  match f.entries.lookup key with
  | some v => (d f.reading v).map some
  | none => if f.inOrder then none else some none

/-- A field that has to be there. -/
def Fields.required {α : Type} (f : Fields) (key : String) (d : Decoder α) : Option α :=
  (f.entries.lookup key).bind (d f.reading)

/-- A field with a default that may stand one level deeper, as the only field of a record. -/
def Fields.nested {α : Type} (f : Fields) (key : String) (inner : Option String) (d : Decoder α)
    (default : α) : Option α :=
  match inner with
  | none => f.orElse key d default
  | some key' =>
    f.orElse key
      (fun reading v => (Fields.ofValue? [key'] reading v).bind (·.orElse key' d default)) default

end WorkerEnv.Toml
