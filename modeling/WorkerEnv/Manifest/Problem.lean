/-
# WorkerEnv.Manifest.Problem -- what can be wrong with a manifest

Each problem is a cause with what is known about it. Its message, code, help and labels are
functions of the cause; a label marks the stretch of the manifest that it is about, where that
stretch was found.
-/

import WorkerEnv.Bindings.Kind
import WorkerEnv.Text.Size

namespace WorkerEnv.Manifest

open Text

/-- Why a manifest cannot be used. -/
inductive Problem where
  /-- The manifest's file cannot be read. -/
  | unreadable (path : String)
  /-- The entry point that decides the form of the script cannot be read. -/
  | entryPoint (path : String)
  /-- The text is not a document, or a value has the wrong shape. -/
  | malformed (file : String)
  /-- A binding has no name. -/
  | unnamed (file : String) (kind : Kind) (place : Option Span)
  /-- Two bindings have one name. -/
  | duplicate (file : String) (name : String) (first second : Kind) (place : Option Span)
  /-- There is no environment of that name among those available. -/
  | unknownEnvironment (name : String) (available : List String)
  deriving DecidableEq, Repr

namespace Problem

/-- What happened. -/
def message : Problem → String
  | unreadable path => "failed to read '" ++ path ++ "'"
  | entryPoint path => "failed to read entry point '" ++ path ++ "'"
  | malformed _ => "failed to parse wrangler.toml"
  | unnamed _ kind _ => kind.label ++ " is missing a binding name"
  | duplicate _ name _ _ _ => "binding name '" ++ name ++ "' is used more than once"
  | unknownEnvironment name _ => "no environment named '" ++ name ++ "'"

/-- The code under which the problem can be looked up. -/
def code? : Problem → Option String
  | unreadable _ => none
  | entryPoint _ => some "workertypes::entry_point"
  | malformed _ => some "workertypes::parse_error"
  | unnamed _ _ _ => some "workertypes::validation_error"
  | duplicate _ _ _ _ _ => some "workertypes::duplicate_binding"
  | unknownEnvironment _ _ => some "workertypes::unknown_environment"

/-- A list of names for a message. -/
def listed : List String → String
  | [] => "(none)"
  | names => ", ".intercalate names

/-- What can be done about it. -/
def help? : Problem → Option String
  | unreadable _ => some "pass the path to your wrangler.toml with --config"
  | entryPoint _ =>
    some "check the \x60main\x60 field, or pass --format to skip format detection"
  | duplicate _ name first second _ =>
    some ("'" ++ name ++ "' is declared as both a " ++ first.label ++ " and a " ++ second.label ++
      "; rename one of them")
  | unknownEnvironment _ available => some ("available environments: " ++ listed available)
  | _ => none

/-- The file that the problem was found in, for the problems that are about its text. -/
def file? : Problem → Option String
  | malformed file => some file
  | unnamed file _ _ => some file
  | duplicate file _ _ _ _ => some file
  | _ => none

/-- The marked stretches of the manifest, each with what is said about it. -/
def labels : Problem → List (String × Span)
  | unnamed file kind place =>
    place.toList.map fun span => ((unnamed file kind place).message, span)
  | duplicate _ _ _ _ place => place.toList.map fun span => ("duplicate binding", span)
  | _ => []

end Problem

end WorkerEnv.Manifest
