/-
# WorkerEnv.Proofs.Declaration.Nesting -- literal types inside literal types

There are two writers of literal types. One writes a value that holds no other directly; the other
turns an array or a table into JSON first and writes everything in it from there. They agree: what
stands inside brackets is the type that each value would have on its own, so a type of any depth can
be put together from those of the values that hold nothing. The one exception is a float that JSON has
no number for, which has the type `number` on its own and is `null` inside.
-/

import WorkerEnv.Proofs.Declaration.Reading

namespace WorkerEnv.Declaration

open Toml (Value)

/-! ## One value inside another -/

/-- Whether a value is a NaN or an infinity. -/
def isBoundless : Value → Bool
  | .float x => !x.isFinite
  | _ => false

/-- What a value is written as inside an array or a table: its own type, or `null` where its own type
is not JSON. -/
def innerType (v : Value) : String := if isBoundless v then "null" else pinnedType v

theorem floatText?_of_not_isFinite {x : Decimal.Double} (h : ¬ x.isFinite) : floatText? x = none := by
  have hsome : (floatText? x).isSome = x.isFinite := by
    rw [floatText?, Option.isSome_map, Decimal.text?_isSome]
  apply Option.not_isSome_iff_eq_none.1
  rwa [hsome]

theorem exists_of_isBoundless {v : Value} (h : isBoundless v) :
    ∃ x, v = .float x ∧ floatText? x = none := by
  cases v with
  | float x =>
    refine ⟨x, rfl, floatText?_of_not_isFinite ?_⟩
    simpa [isBoundless] using h
  | _ => cases h

/-- The writer that goes by way of JSON agrees with the direct one. -/
theorem text_asJson (v : Value) : (asJson v).text = innerType v := by
  unfold innerType
  split
  · next h =>
    obtain ⟨x, rfl, htext⟩ := exists_of_isBoundless h
    rw [asJson, htext]
    rfl
  · next h =>
    refine (pinnedType_eq ?_).symm
    rintro x rfl
    simpa [isBoundless] using h

/-- The exception, and that there is no other. -/
theorem innerType_cases (v : Value) :
    if isBoundless v then innerType v = "null" ∧ pinnedType v = "number"
    else innerType v = pinnedType v := by
  split
  · next h =>
    obtain ⟨x, rfl, htext⟩ := exists_of_isBoundless h
    have halone : pinnedType (.float x) = "number" := by
      rw [pinnedType, htext]
      rfl
    exact ⟨if_pos h, halone⟩
  · next h => exact if_neg h

/-! ## Lists of values -/

theorem itemTexts_itemsAsJson (items : List Value) :
    itemTexts (itemsAsJson items) = items.map innerType := by
  induction items with
  | nil => rfl
  | cons v vs ih => rw [itemsAsJson, itemTexts, List.map_cons, text_asJson, ih]

/-- A key with the type of its value. -/
def entryType (e : String × Value) : String := Text.quote e.1 ++ ":" ++ innerType e.2

theorem entryTexts_entriesAsJson (entries : List (String × Value)) :
    entryTexts (entriesAsJson entries) = entries.map entryType := by
  induction entries with
  | nil => rfl
  | cons e es ih => rw [entriesAsJson, entryTexts, List.map_cons, text_asJson, ih, entryType]

theorem pinnedType_array (items : List Value) :
    pinnedType (.array items) = "[" ++ ",".intercalate (items.map innerType) ++ "]" := by
  rw [pinnedType, asJson, Json.text, itemTexts_itemsAsJson]

theorem pinnedType_table (entries : List (String × Value)) :
    pinnedType (.table entries) =
      "\x7b" ++ ",".intercalate (entries.map entryType) ++ "\x7d" := by
  rw [pinnedType, asJson, Json.text, entryTexts_entriesAsJson]

/-! ## All depths at once -/

section Depth

variable (leaf : Value → String)

mutual

/-- A type put together from the texts of those values in it that hold no others. -/
def assembled : Value → String
  | .array items => "[" ++ ",".intercalate (assembledItems items) ++ "]"
  | .table entries => "\x7b" ++ ",".intercalate (assembledEntries entries) ++ "\x7d"
  | v => leaf v

/-- `assembled` for every item. -/
def assembledItems : List Value → List String
  | [] => []
  | v :: vs => assembled v :: assembledItems vs

/-- `assembled` behind every key. -/
def assembledEntries : List (String × Value) → List String
  | [] => []
  | (key, v) :: es => (Text.quote key ++ ":" ++ assembled v) :: assembledEntries es

end

end Depth

mutual

/-- Putting a type together from the inside gives the type inside any other. -/
theorem assembled_innerType (v : Value) : assembled innerType v = innerType v := by
  cases v with
  | array items =>
    have halone : innerType (.array items) = pinnedType (.array items) := rfl
    rw [assembled, assembledItems_innerType items, halone, pinnedType_array]
  | table entries =>
    have halone : innerType (.table entries) = pinnedType (.table entries) := rfl
    rw [assembled, assembledEntries_innerType entries, halone, pinnedType_table]
  | _ => rfl

theorem assembledItems_innerType (items : List Value) :
    assembledItems innerType items = items.map innerType := by
  cases items with
  | nil => rfl
  | cons v vs =>
    rw [assembledItems, assembled_innerType v, assembledItems_innerType vs, List.map_cons]

theorem assembledEntries_innerType (entries : List (String × Value)) :
    assembledEntries innerType entries = entries.map entryType := by
  cases entries with
  | nil => rfl
  | cons e es =>
    obtain ⟨key, v⟩ := e
    rw [assembledEntries, assembled_innerType v, assembledEntries_innerType es, List.map_cons,
      entryType]

end

/-- The type of an array or a table is made of the types of what it holds, in order and at every
depth. Only a NaN or an infinity is written in another way inside than alone. -/
theorem pinnedType_nested :
    (∀ items, pinnedType (.array items) = "[" ++ ",".intercalate (items.map innerType) ++ "]") ∧
    (∀ entries, pinnedType (.table entries) = "\x7b" ++ ",".intercalate
      (entries.map fun e => Text.quote e.1 ++ ":" ++ innerType e.2) ++ "\x7d") ∧
    (∀ v, assembled innerType v = innerType v) ∧
    ∀ v, if isBoundless v then innerType v = "null" ∧ pinnedType v = "number"
      else innerType v = pinnedType v := by
  refine ⟨pinnedType_array, ?_, assembled_innerType, innerType_cases⟩
  intro entries
  exact pinnedType_table entries

example : pinnedType
    (.array [.float .nan, .table [("k\n", .array [.float (.infinite true), .integer 3])]]) =
    "[null,\x7b\"k\\n\":[null,3]\x7d]" := by decide +kernel

end WorkerEnv.Declaration
