/-
# WorkerEnv.Main -- the program

Copies the part of the disk that a run looks at into a file tree, runs the command on it, carries out
what it has done, and prints what it prints. What the disk refuses is copied as well: a directory that
lets nobody look into it and a file that cannot be read refuse the same in the tree. That something
cannot be written shows only when it is to be carried out; then the run is the one on the tree that
refuses it.
-/

import Std.Time.DateTime.Timestamp
import WorkerEnv.Command.Footprint
import WorkerEnv.Command.Run

namespace WorkerEnv.Main

open Storage Command

/-! ## Copying -/

/-- The path of a location from the current directory. -/
def relativeText (here place : Location) : String :=
  let common := ((here.zip place).takeWhile fun (s, q) => s == q).length
  ofSegments ("." :: List.replicate (here.length - common) ".." ++ place.drop common)

/-- Whether the disk refuses to say what a path leads to. -/
def isBarred (path : String) : IO Bool := do
  match ← { (← IO.currentDir) with toString := path }.metadata.toBaseIO with
  | .error (.permissionDenied _ _ _) => pure true
  | _ => pure false

/-- The first path to a location that the disk does not refuse to follow, with something at its end.
Who stands behind a directory that cannot be searched still goes on from there. -/
def openPath? (here place : Location) (ending : String) : IO (Option String) :=
  [locationText place, relativeText here place].findM? fun path => not <$> isBarred (path ++ ending)

/-- Copies a directory of the disk into a tree, with whether it can be searched. -/
def copyDirectory (here : Location) (t : FileTree) (place : Location) : IO FileTree := do
  let t := t.set place .directory
  if (← openPath? here place "/.").isNone then pure (t.refuse place .search) else pure t

/-- Copies a file of the disk into a tree. Of one that cannot be read the bytes do not matter. -/
def copyFile (t : FileTree) (place : Location) (path : String) : IO FileTree := do
  match ← (IO.FS.readBinFile path).toBaseIO with
  | .ok bytes => pure (t.set place (.file bytes.toList))
  | .error _ => pure ((t.set place (.file [])).refuse place .read)

/-- Copies one location of the disk into a tree, with what is refused there. If the disk refuses to say
what is there, then the directory refuses to be searched. -/
def copyPlace (here : Location) (t : FileTree) (place : Location) : IO FileTree := do
  match ← openPath? here place "" with
  | none => pure (t.refuse place.dropLast .search)
  | some text =>
    let path := { (← IO.currentDir) with toString := text }
    if ← path.isDir then copyDirectory here t place
    else if ← path.pathExists then copyFile t place text
    else pure t

/-- Copies all locations that a path passes. -/
def copyPath (here : Location) (t : FileTree) (path : String) : IO FileTree :=
  ((visited here path).filter fun place => (t.get? place).isNone).foldlM (copyPlace here) t

/-- Copies what a request looks at: first what can be told from nothing, then the rest. -/
def copyFor (here : Location) (request : Request) : IO FileTree := do
  let start ← copyPath here FileTree.empty (locationText here)
  let first ← (footprint start here request).foldlM (copyPath here) start
  (footprint first here request).foldlM (copyPath here) first

/-! ## Running -/

/-- Carries out one change on the disk. -/
def carryOut (change : Location × Entry) : IO Unit :=
  let path := locationText change.1
  match change.2 with
  | .directory => IO.FS.createDir path
  | .file bytes => IO.FS.writeBinFile path ⟨bytes.toArray⟩
  | .removed => pure ()

/-- Carries out changes on the disk, one after the other up to the first that it refuses, and says
where that was. -/
def carryOutAll : List (Location × Entry) → IO (Option Location)
  | [] => pure none
  | change :: rest => do
    match ← (carryOut change).toBaseIO with
    | .ok () => carryOutAll rest
    | .error _ => pure (some change.1)

/-- The present. -/
def present : IO Instant := do
  let now ← Std.Time.Timestamp.now
  pure ⟨now.toSecondsSinceUnixEpoch.val, false⟩

/-- The location of the current directory. -/
def currentLocation : IO Location := do
  let here ← IO.currentDir
  pure (steps here.toString)

/-- Runs a command line on a tree and carries out on the disk what it has done. Where the disk refuses
something, the run is the one that is refused it: it stops there, and what it has done by then has been
carried out. -/
def runOnDisk (t : FileTree) (here : Location) (now : Instant) (arguments : List String) :
    IO Result := do
  let result := run t here now arguments
  match ← carryOutAll (changes t result.tree) with
  | none => pure result
  | some place => pure (run (t.refuse (t.keeper place) .write) here now arguments)

/-- Runs a command line on the disk. -/
def program (arguments : List String) : IO UInt32 := do
  let here ← currentLocation
  let tree ←
    match Request.ofArguments arguments with
    | .ok request => copyFor here request
    | .error _ => pure FileTree.empty
  let result ← runOnDisk tree here (← present) arguments
  IO.print result.output
  IO.eprint result.complaint
  pure (UInt32.ofNat result.status)

end WorkerEnv.Main

/-- Runs a command line. -/
def main (arguments : List String) : IO UInt32 := WorkerEnv.Main.program arguments
