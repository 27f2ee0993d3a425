/-
# WorkerEnv.Script.Format -- the two forms of an entry point

A script is either a module, which is handed its bindings, or a service worker, which finds them
among its globals.
-/

namespace WorkerEnv.Script

/-- The form of an entry point. -/
inductive Format where
  | modules
  | serviceWorker
  deriving DecidableEq, Repr

namespace Format

/-- The name of a form. -/
def name : Format → String
  | modules => "modules"
  | serviceWorker => "service-worker"

/-- The lower case of a character as far as ASCII goes: of all characters outside ASCII, only the
Kelvin sign has an ASCII letter for its lower case. -/
def lower (c : Char) : Char := if c = '\u212A' then 'k' else c.toLower

/-- The form that a user calls by a name, a short name or either in other case. -/
def ofName? (s : String) : Option Format :=
  let t := String.ofList (s.toList.map lower)
  if t = "modules" ∨ t = "esm" then some modules
  else if t = "service-worker" ∨ t = "sw" then some serviceWorker
  else none

/-- The form of exactly this name. -/
def ofExactName? (s : String) : Option Format :=
  if s = "modules" then some modules
  else if s = "service-worker" then some serviceWorker
  else none

/-- What a user is told whose name for a form is not known. -/
def unknownMessage (s : String) : String := "unknown script format '" ++ s ++ "'"

theorem ofName?_name (f : Format) : ofName? f.name = some f := by cases f <;> rfl

end Format

end WorkerEnv.Script
