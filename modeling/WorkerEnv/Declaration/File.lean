/-
# WorkerEnv.Declaration.File -- the declaration file

The file is a header line and a body. For modules the body declares `interface Env`; for service
workers it declares global constants, after an empty export that makes the file a module. Ambient
modules follow, each after a blank line. The header carries the marker by which a generated file is
known.
-/

import WorkerEnv.Declaration.Definitions
import WorkerEnv.Instant
import WorkerEnv.Layout.Sheet
import WorkerEnv.Script.Format

namespace WorkerEnv.Declaration

open Layout

/-- The name of the file. -/
def fileName : String := "worker-configuration.d.ts"

/-- The text that marks a file as generated. -/
def marker : String := "Generated by workertypes"

/-- The element that declares the environment. -/
def environment (members : List Member) : Script.Format → Node
  | .modules => .interface "Env" members
  | .serviceWorker => .sequence [.verbatim "export \x7b\x7d;", .globals members]

/-- The elements of the body. -/
def sheet (d : Definitions) (format : Script.Format) : Sheet :=
  (Sheet.empty.push (environment d.members format).toBlocks).append
    (d.modules.map fun m => (Node.ambient m).toBlocks)

/-- The file without its header. -/
def body (d : Definitions) (format : Script.Format) : String := (sheet d format).text

/-- The first line, which says when the file was generated. -/
def header (time : Instant) : String := "// " ++ marker ++ " on " ++ time.text

/-- The whole file. -/
def content (d : Definitions) (format : Script.Format) (time : Instant) : String :=
  header time ++ "\n" ++ body d format

end WorkerEnv.Declaration
