/-
# WorkerEnv.Storage.Provenance -- the nearest file and where it comes from

`nearestFile` looks for a file by name in a directory and in its lexical parents, nearest first. A
candidate that is not there, or is a directory, is passed over; one that cannot be looked at ends the
search. `provenance` then reads the file that was found and says whether it carries a marker among its
bytes; a file that refuses to be read is neither.
-/

import WorkerEnv.Storage.Failure
import WorkerEnv.Storage.FileTree
import WorkerEnv.Text.Search

namespace WorkerEnv.Storage

/-! ## Looking upward -/

/-- The first of the candidates that is a file. -/
def firstFile (t : FileTree) (here : Location) : List String → Except Failure (Option String)
  | [] => .ok none
  | candidate :: rest =>
    match t.find here candidate with
    | .ok (_, .file _) => .ok (some candidate)
    | .ok _ => firstFile t here rest
    | .error .notFound => firstFile t here rest
    | .error _ => .error (.inaccessible candidate)

/-- The absolute form of a path, as long as the current directory is there. -/
def absoluteIn? (t : FileTree) (here : Location) (path : String) : Option String :=
  if isAbsolute path ∨ t.get? here = some .directory then absolute? here path else none

/-- The nearest file of the given name in a directory or above it. -/
def nearestFile (t : FileTree) (here : Location) (start name : String) :
    Except Failure (Option String) :=
  match absoluteIn? t here start with
  | none => .error (.inaccessible start)
  | some path => firstFile t here ((ancestors path).map (join · name))

/-! ## Provenance -/

/-- Where the nearest file of a name comes from. -/
inductive Provenance where
  /-- There is no such file. -/
  | missing
  /-- The file carries the marker. -/
  | generated (path : String)
  /-- The file lacks the marker. -/
  | foreign (path : String)
  deriving DecidableEq, Repr

/-- Whether bytes contain the bytes of a marker. -/
def carries (bytes : List UInt8) (marker : String) : Bool :=
  Text.occursIn (Text.utf8 marker) bytes

/-- Where the nearest file of the given name comes from. -/
def provenance (t : FileTree) (here : Location) (start name marker : String) :
    Except Failure Provenance := do
  match ← nearestFile t here start name with
  | none => pure .missing
  | some path =>
    match t.read here path with
    | .ok bytes => pure (if carries bytes marker then .generated path else .foreign path)
    | .error .notFound => pure .missing
    | .error _ => .error (.inaccessible path)

/-- A foreign file may not be overwritten; in every other case the way is clear. -/
def Provenance.permit : Provenance → Except Failure Unit
  | .foreign path => .error (.foreign path)
  | _ => .ok ()

/-! ## Writing -/

/-- What came of writing a file: the tree, also if it failed halfway, and whether it failed. -/
structure Writing where
  tree : FileTree
  failure? : Option Failure

/-- Writes bytes to a file whose directory is there. -/
def writePlain (t : FileTree) (here : Location) (path : String) (bytes : List UInt8) : Writing :=
  match t.write here path bytes with
  | .ok t' => ⟨t', none⟩
  | .error _ => ⟨t, some (.inaccessible path)⟩

/-- Writes bytes to a file after making its directory. -/
def writeBytes (t : FileTree) (here : Location) (path : String) (bytes : List UInt8) : Writing :=
  match parent? path with
  | none => writePlain t here path bytes
  | some above =>
    match t.makeDirectories here above with
    | ⟨t', some _⟩ => ⟨t', some (.inaccessible above)⟩
    | ⟨t', none⟩ => writePlain t' here path bytes

/-- Writes a text to a file after making its directory. -/
def writeText (t : FileTree) (here : Location) (path content : String) : Writing :=
  writeBytes t here path (Text.utf8 content)

end WorkerEnv.Storage
