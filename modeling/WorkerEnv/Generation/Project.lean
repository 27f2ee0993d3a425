/-
# WorkerEnv.Generation.Project -- a manifest and the directory it stands in

A project is a manifest with the path it was read from. Paths in the manifest are relative to its
directory. The form of the entry point is, in this order: what the caller says, what the manifest
says, `modules` if there is no entry point, and else what the text of the entry point shows.
-/

import WorkerEnv.Manifest.Validation
import WorkerEnv.Script.Detection
import WorkerEnv.Storage.FileTree

namespace WorkerEnv.Generation

open Storage Manifest

/-- A manifest and its path. -/
structure Project where
  path : String
  manifest : Manifest

/-- Reads and checks the manifest at a path. -/
def Project.openAt (t : FileTree) (here : Location) (path : String) : Except Problem Project :=
  match t.readText? here path with
  | none => .error (.unreadable path)
  | some text => (Manifest.parse text path).map (⟨path, ·⟩)

/-- The directory that the manifest stands in. -/
def Project.directory (p : Project) : String :=
  match parent? p.path with
  | some above => if above = "" then "." else above
  | none => "."

/-- The form of the entry point of a manifest that stands in the given directory. -/
def entryFormat (t : FileTree) (here : Location) (explicit : Option Script.Format)
    (m : Manifest) (directory : String) : Except Problem Script.Format :=
  match explicit, m.format, m.main with
  | some format, _, _ => .ok format
  | none, some format, _ => .ok format
  | none, none, none => .ok .modules
  | none, none, some main =>
    let path := join directory main
    match t.readText? here path with
    | some source => .ok (Script.formatOf source)
    | none => .error (.entryPoint path)

end WorkerEnv.Generation
