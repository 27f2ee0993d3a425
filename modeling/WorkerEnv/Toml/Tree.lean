/-
# WorkerEnv.Toml.Tree -- tables under construction

A document is built statement by statement, and what a later statement may still do to a table
depends on how the table came about. A table that a header opened is closed to everything but
deeper headers; one that a deeper header implied can still be opened, once, and then moves to the
end of its parent; one that dotted keys made can only be extended by dotted keys. `Entries.assign`
is the rule of a key with a value, `Entries.openTable` the rule of `[header]`, `Entries.openElement`
the rule of `[[header]]`; each fails where its rule forbids the statement.
-/

import WorkerEnv.Toml.Value

namespace WorkerEnv.Toml

/-- How a table came about. -/
inductive Origin where
  /-- A header opened it. -/
  | opened
  /-- It lies on the way to a table that a header opened. -/
  | implied
  /-- It lies on the way of a dotted key. -/
  | dotted
  deriving DecidableEq, Repr

/-- What stands under a key of a table under construction. -/
inductive Node where
  | value (v : Value)
  | table (origin : Origin) (entries : List (String × Node))
  | tables (elements : List (List (String × Node)))

/-- The entries of a table under construction. -/
abbrev Entries := List (String × Node)

/-- A key with its dots taken apart. -/
abbrev KeyPath := List String

/-- Puts a node in the place of the one under the same key. -/
def Entries.replace (es : Entries) (key : String) (node : Node) : Entries :=
  es.map fun e => if e.1 = key then (key, node) else e

/-- Puts a node under a new key, after all others. -/
def Entries.append (es : Entries) (key : String) (node : Node) : Entries := es ++ [(key, node)]

/-- Changes the last element of an array of tables. -/
def onLast (change : Entries → Option Entries) (elements : List Entries) :
    Option (List Entries) :=
  match elements.getLast? with
  | none => none
  | some e => (change e).map fun e => elements.dropLast ++ [e]

/-! ## Keys with values -/

/-- Gives a dotted key its value. No part of the path may have a value, no table that a header
opened is entered, and the table that takes the value must be one that dotted keys made. -/
def Entries.assign : KeyPath → Value → Entries → Option Entries
  | [], _, _ => none
  | [key], v, es =>
    match es.lookup key with
    | none => some (es.append key (.value v))
    | some _ => none
  | key :: next :: path, v, es =>
    match es.lookup key with
    | none => (assign (next :: path) v []).map fun t => es.append key (.table .dotted t)
    | some (.table .opened _) => none
    | some (.table .implied t) =>
      if path.isEmpty then none
      else (assign (next :: path) v t).map fun t => es.replace key (.table .implied t)
    | some (.table .dotted t) =>
      (assign (next :: path) v t).map fun t => es.replace key (.table .dotted t)
    | some (.tables elements) =>
      if path.isEmpty then none
      else (onLast (assign (next :: path) v) elements).map fun es' => es.replace key (.tables es')
    | some (.value _) => none

/-- Gives each key its value in turn. -/
def Entries.assignAll (es : Entries) (pairs : List (KeyPath × Value)) : Option Entries :=
  pairs.foldlM (fun es pair => es.assign pair.1 pair.2) es

/-! ## Headers -/

/-- Makes a change in the table at the end of a path. Tables that are missing are made on the way,
an array of tables stands for its last element. -/
def Entries.within : KeyPath → (Entries → Option Entries) → Entries → Option Entries
  | [], change, es => change es
  | key :: path, change, es =>
    match es.lookup key with
    | none => (within path change []).map fun t => es.append key (.table .implied t)
    | some (.table origin t) =>
      (within path change t).map fun t => es.replace key (.table origin t)
    | some (.tables elements) =>
      (onLast (within path change) elements).map fun es' => es.replace key (.tables es')
    | some (.value _) => none

/-- Opens the table under a key and fills it. A table that was implied keeps its entries and moves
to the end; any other may not be there yet. -/
def Entries.openTable (key : String) (body : List (KeyPath × Value)) (es : Entries) :
    Option Entries :=
  match es.lookup key with
  | none => (Entries.assignAll [] body).map fun t => es.append key (.table .opened t)
  | some (.table .implied t) =>
    (Entries.assignAll t body).map fun t =>
      Entries.append (es.filter (·.1 ≠ key)) key (.table .opened t)
  | some _ => none

/-- Adds an element to the array of tables under a key and fills it. -/
def Entries.openElement (key : String) (body : List (KeyPath × Value)) (es : Entries) :
    Option Entries :=
  match es.lookup key with
  | none => (Entries.assignAll [] body).map fun t => es.append key (.tables [t])
  | some (.tables elements) =>
    (Entries.assignAll [] body).map fun t => es.replace key (.tables (elements ++ [t]))
  | some _ => none

/-! ## The finished table -/

mutual

/-- The value that a node has once nothing more is said about it. -/
def Node.finished : Node → Value
  | .value v => v
  | .table _ entries => .table (finishedEntries entries)
  | .tables elements => .array (finishedElements elements)

/-- `Node.finished` under every key. -/
def finishedEntries : List (String × Node) → Table
  | [] => []
  | (key, node) :: es => (key, node.finished) :: finishedEntries es

/-- `Node.finished` throughout every element. -/
def finishedElements : List (List (String × Node)) → List Value
  | [] => []
  | e :: es => .table (finishedEntries e) :: finishedElements es

end

end WorkerEnv.Toml
