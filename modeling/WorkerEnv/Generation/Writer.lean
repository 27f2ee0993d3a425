/-
# WorkerEnv.Generation.Writer -- writing the declaration file

A declaration file is written only where the nearest file of its name, in its directory or above,
is absent or was generated. This is checked even if there is nothing to declare; then nothing is
touched. A written body is also told to the log.
-/

import WorkerEnv.Declaration.File
import WorkerEnv.Storage.Provenance

namespace WorkerEnv.Generation

open Storage Declaration

/-- What became of the declaration file. -/
inductive Outcome where
  | written (path : String)
  /-- There was nothing to declare. -/
  | untouched
  deriving DecidableEq, Repr

/-- What came of one attempt to write. -/
structure Attempt where
  tree : FileTree
  result : Except Failure Outcome
  /-- The messages to the log. -/
  told : List String

/-- The path of the declaration file of a directory. -/
def filePath (directory : String) : String := join directory fileName

/-- Whether the declaration file of a directory may be written. -/
def permission (t : FileTree) (here : Location) (directory : String) : Except Failure Unit :=
  (provenance t here directory fileName marker).bind Provenance.permit

/-- Writes the declaration file of a directory. -/
def write (t : FileTree) (here : Location) (directory : String) (d : Definitions)
    (format : Script.Format) (time : Instant) : Attempt :=
  match permission t here directory with
  | .error failure => ⟨t, .error failure, []⟩
  | .ok () =>
    if d.isEmpty then ⟨t, .ok .untouched, []⟩
    else
      match writeText t here (filePath directory) (content d format time) with
      | ⟨t', some failure⟩ => ⟨t', .error failure, []⟩
      | ⟨t', none⟩ => ⟨t', .ok (.written (filePath directory)), [body d format]⟩

end WorkerEnv.Generation
