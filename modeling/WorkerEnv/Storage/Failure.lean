/-
# WorkerEnv.Storage.Failure -- what can go wrong with the generated file

A file that lacks the marker is not ours to overwrite; everything else is a failed access to a path.
-/

namespace WorkerEnv.Storage

/-- Why the generated file cannot be written. -/
inductive Failure where
  /-- There is a file that was not generated. -/
  | foreign (path : String)
  /-- A path cannot be looked at, read or written. -/
  | inaccessible (path : String)
  deriving DecidableEq, Repr

namespace Failure

/-- What happened. -/
def message : Failure → String
  | foreign path => "a non-generated '" ++ path ++ "' already exists"
  | inaccessible path => "failed to access '" ++ path ++ "'"

/-- The code under which the failure can be looked up. -/
def code : Failure → String
  | foreign _ => "workertypes::foreign_file"
  | inaccessible _ => "workertypes::io"

/-- What can be done about it. -/
def help? : Failure → Option String
  | foreign _ => some "rename or remove the existing file and try again"
  | inaccessible _ => none

end Failure

end WorkerEnv.Storage
