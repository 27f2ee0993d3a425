/-
# WorkerEnv.Command.Footprint -- which part of the file system a run can see

A run is a function of a file tree, so before it the part of the disk that it looks at has to be
copied into one, and after it the changes have to be carried out. `footprint` lists the paths that a
run looks at, `visited` the locations on the way of a path, and `changes` what a run has done.
-/

import WorkerEnv.Command.Arguments
import WorkerEnv.Generation.Project
import WorkerEnv.Generation.Writer

namespace WorkerEnv.Command

open Storage Generation

/-- The paths that a request looks at, as far as they can be told from what is known of the disk:
the manifest, then the entry point that it names, and the candidates for the declaration file. -/
def footprint (t : FileTree) (here : Location) : Request → List String
  | .types o =>
    let entry :=
      match Project.openAt t here o.config with
      | .ok p => (p.manifest.main.map (join p.directory)).toList
      | .error _ => []
    let above := ((absolute? here o.directory).map ancestors).getD []
    o.config :: entry ++ filePath o.directory :: above.map (join · Declaration.fileName)
  | .check o => [o.config]
  | .completions _ => []

/-- A location and all that lie above it, except the root, from the root downwards. -/
def chain (place : Location) : List Location :=
  (List.range place.length).map fun n => place.take (n + 1)

/-- The locations that a path passes, with all that lie above them. -/
def visited (here : Location) (path : String) : List Location :=
  (passed (FileTree.startOf here path) (segments path)).flatMap chain

/-- The entries of a tree that another tree does not have in this form, directories first. -/
def changes (before after : FileTree) : List (Location × Entry) :=
  let new := after.entries.filter fun (place, entry) => before.get? place != some entry
  new.filter (·.2 == .directory) ++ new.filter (·.2 != .directory)

end WorkerEnv.Command
