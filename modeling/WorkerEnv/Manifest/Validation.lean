/-
# WorkerEnv.Manifest.Validation -- the checks on a manifest

Within one table of bindings every name has to be there and no two may be equal, whatever their
kinds; different environments do not see each other. `parse` reads a text and reports the first
offence, by table, and within a table in the order of `Bindings.pairs`.
-/

import WorkerEnv.Manifest.Basic
import WorkerEnv.Manifest.Place
import WorkerEnv.Manifest.Problem
import WorkerEnv.Toml.Document

namespace WorkerEnv.Manifest

/-! ## Offences -/

/-- A rule that a table of bindings breaks. -/
inductive Offence where
  /-- A binding of this kind has no name. -/
  | unnamed (kind : Kind)
  /-- A name of the first kind stands again as one of the second. -/
  | duplicate (name : String) (first second : Kind)
  deriving DecidableEq, Repr

/-- The first offence in a sequence of bindings that comes after those already seen. -/
def firstOffence (seen : List (Kind × String)) : List (Kind × String) → Option Offence
  | [] => none
  | (kind, name) :: rest =>
    if name = "" then some (.unnamed kind)
    else
      match seen.find? (·.2 = name) with
      | some (first, _) => some (.duplicate name first kind)
      | none => firstOffence ((kind, name) :: seen) rest

/-- The first offence in a table of bindings. -/
def offenceIn (b : Bindings) : Option Offence := firstOffence [] b.pairs

/-- The first offence in a manifest. -/
def offence? (m : Manifest) : Option Offence := m.tables.findSome? offenceIn

/-- The problem that an offence is for the reader of the text, with the place to look at. -/
def Offence.toProblem (text : List Char) (file : String) : Offence → Problem
  | .unnamed kind => .unnamed file kind (placeOfKey text kind.innermostKey.toList)
  | .duplicate name first second =>
    .duplicate file name first second (placeOfName text name.toList)

/-! ## Reading and checking -/

/-- The manifest that a text declares, without the checks. -/
def ofText? (text : String) : Option Manifest := (Toml.parse text).bind ofTable

/-- The manifest that a text declares, or what is wrong with it. -/
def parse (text file : String) : Except Problem Manifest :=
  match ofText? text with
  | none => .error (.malformed file)
  | some m =>
    match m.offence? with
    | none => .ok m
    | some offence => .error (offence.toProblem text.toList file)

/-- The bindings of an environment, or of the top level. -/
def select (m : Manifest) : Option String → Except Problem Bindings
  | none => .ok m.bindings
  | some name =>
    match m.environments.lookup name with
    | some b => .ok b
    | none => .error (.unknownEnvironment name m.environmentNames)

end WorkerEnv.Manifest
