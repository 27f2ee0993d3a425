/-
# WorkerEnv.Manifest.Basic -- what a manifest declares

A manifest names the worker and its entry point, may fix the form of the entry point, and declares
bindings: once at the top level and once more for each environment. Environments inherit nothing
from the top level or from each other.
-/

import WorkerEnv.Bindings.Collection
import WorkerEnv.Script.Format

namespace WorkerEnv

open Toml

/-- The contents of a manifest. -/
structure Manifest where
  name : Option String
  /-- The path of the entry point, as written. -/
  main : Option String
  /-- The form of the entry point, if the manifest fixes it. -/
  format : Option Script.Format
  /-- The bindings of the top level. -/
  bindings : Bindings
  /-- The bindings of each environment, in the order of their declaration. -/
  environments : List (String × Bindings)

namespace Manifest

/-! ## Environments -/

/-- The names of the environments, in the order of their declaration. -/
def environmentNames (m : Manifest) : List String := m.environments.map (·.1)

/-- All tables of bindings: that of the top level, then those of the environments. -/
def tables (m : Manifest) : List Bindings := m.bindings :: m.environments.map (·.2)

/-! ## Reading -/

/-- Reads the form of an entry point, which has to be called by its exact name. -/
def decodeFormat : Decoder Script.Format := fun reading v =>
  (asChoice reading v).bind Script.Format.ofExactName?

/-- Reads the settings of an upload, of which only the form of the entry point counts. -/
def decodeUpload : Decoder (Option Script.Format) := fun reading v =>
  (Fields.ofValue? ["format"] reading v).bind (·.optional "format" decodeFormat)

/-- The keys of a manifest itself. Everything else at its top level belongs to the bindings. -/
def ownKeys : List String := ["name", "main", "build", "env"]

/-- What stands at the top level beside the manifest's own keys. All of it is held, and it has to be
fit for that, before any of it is read as a binding. -/
def heldFields (t : Table) : Option Fields := do
  let others := t.filter fun (key, _) => !ownKeys.contains key
  guard (others.all fun (_, v) => v.isHoldable)
  pure ⟨others, .held, false⟩

/-- Reads a manifest. Bindings of the top level stand beside the manifest's own keys. -/
def ofTable (t : Table) : Option Manifest := do
  let f : Fields := ⟨t, .direct, false⟩
  let name ← f.optional "name" asText
  let main ← f.optional "main" asText
  let format ← f.nested "build" (some "upload") decodeUpload none
  let bindings ← (heldFields t).bind Bindings.ofFields
  let environments ← f.orElse "env" (tableOf Bindings.decode) []
  pure { name, main, format, bindings, environments }

end Manifest

end WorkerEnv
