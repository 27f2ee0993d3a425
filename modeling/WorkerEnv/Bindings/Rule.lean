/-
# WorkerEnv.Bindings.Rule -- import rules

A rule gives a module type to the files that its globs match. A module type that is not known is
not an error; it is read as `other`.
-/

import WorkerEnv.Toml.Decode

namespace WorkerEnv

/-- What an imported module is. -/
inductive ModuleType where
  | esModule
  | commonJS
  | compiledWasm
  | text
  | data
  /-- Any type that is not one of the above. -/
  | other
  deriving DecidableEq, Repr

/-- The name of a module type. -/
def ModuleType.name : ModuleType → String
  | .esModule => "ESModule"
  | .commonJS => "CommonJS"
  | .compiledWasm => "CompiledWasm"
  | .text => "Text"
  | .data => "Data"
  | .other => "Other"

/-- The module type of a name; names are told apart by case. -/
def ModuleType.ofName (name : String) : ModuleType :=
  if name = "ESModule" then .esModule
  else if name = "CommonJS" then .commonJS
  else if name = "CompiledWasm" then .compiledWasm
  else if name = "Text" then .text
  else if name = "Data" then .data
  else .other

/-- A rule for the modules that its globs match. -/
structure Rule where
  type : ModuleType
  globs : List String
  fallthrough : Bool
  deriving DecidableEq, Repr

open Toml

/-- Reads a rule: its type has to be there, globs and fallthrough have defaults. -/
def Rule.decode : Decoder Rule := fun reading v => do
  let f ← Fields.ofValue? ["type", "globs", "fallthrough"] reading v
  let type ← f.required "type" asChoice
  let globs ← f.orElse "globs" (listOf asText) []
  let fallthrough ← f.orElse "fallthrough" asFlag false
  pure ⟨ModuleType.ofName type, globs, fallthrough⟩

end WorkerEnv
