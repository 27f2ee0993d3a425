/-
# WorkerEnv.Storage.FileTree -- directories, files, and what a path leads to

A file tree knows which locations hold a directory and which hold a file with which bytes; the root
is always a directory. A path is walked segment by segment from the root or from the current
directory: each segment, an empty one or a dot too, needs a directory to stand in, and two dots lead
to the parent of wherever the walk has come to. There are no links, so every file has one location.

Access can be refused. A file can refuse to be read or to be written over; a directory can refuse to
take anything new, or to be searched, and then no walk goes on from it, not even to its parent. What is
made refuses nothing, and nothing that is done here gives or takes a right.

Who stands in a directory that is taken away goes on standing in it. Such a directory keeps a
location, one that no path names: a walk can leave it for its parent, and that is all.
-/

import WorkerEnv.Storage.Path
import WorkerEnv.Text.Size
import WorkerEnv.Text.Utf8

namespace WorkerEnv.Storage

/-- What a location holds. -/
inductive Entry where
  | directory
  | file (bytes : List UInt8)
  /-- A directory that was taken away while somebody stood in it. Nothing is in it, and nothing can
  be put into it. -/
  | removed
  deriving DecidableEq, Repr

/-- What can be refused at a location. -/
inductive Access where
  /-- Reading a file. -/
  | read
  /-- Writing over a file, or putting something new into a directory. -/
  | write
  /-- Going on from a directory. -/
  | search
  deriving DecidableEq, Repr

/-- Directories and files by location, and what is refused where. -/
structure FileTree where
  entries : List (Location × Entry)
  refusals : List (Location × Access)
  deriving DecidableEq, Repr

/-- Why a path leads nowhere or an operation on it is refused. -/
inductive Fault where
  /-- Something on the way is not there. -/
  | notFound
  /-- Something on the way is a file. -/
  | notDirectory
  /-- There is a directory where a file is wanted. -/
  | isDirectory
  /-- There is something already. -/
  | alreadyThere
  /-- The path or a segment is too long, or the path holds a NUL. -/
  | unusable
  /-- Something is there, but access to it is refused. -/
  | refused
  deriving DecidableEq, Repr

/-! ## Limits -/

/-- The greatest number of bytes of a path. -/
def longestPath : Nat := 4095

/-- The greatest number of bytes of a segment. -/
def longestSegment : Nat := 255

/-- Whether a name can be that of an entry. -/
def fits (name : String) : Bool := Text.byteSize name.toList ≤ longestSegment

/-- Whether a path is short enough and free of NUL. -/
def usable (path : String) : Bool :=
  Text.byteSize path.toList ≤ longestPath ∧ '\x00' ∉ path.toList

namespace FileTree

/-- A tree with nothing but the root. -/
def empty : FileTree := ⟨[], []⟩

/-- What a location holds. -/
def get? (t : FileTree) (place : Location) : Option Entry :=
  match place with
  | [] => some .directory
  | _ => t.entries.lookup place

/-- Puts an entry at a location, in the place of what was there. -/
def set (t : FileTree) (place : Location) (entry : Entry) : FileTree :=
  if (t.entries.lookup place).isSome then
    { t with entries := t.entries.map fun e => if e.1 = place then (place, entry) else e }
  else { t with entries := t.entries ++ [(place, entry)] }

/-! ## Access -/

/-- Whether an access is refused at a location. -/
def refuses (t : FileTree) (place : Location) (access : Access) : Bool :=
  (place, access) ∈ t.refusals

/-- Refuses an access at a location. -/
def refuse (t : FileTree) (place : Location) (access : Access) : FileTree :=
  { t with refusals := (place, access) :: t.refusals }

/-- Whose right it is to refuse that something is put at a location: what is there already, or else
the directory. -/
def keeper (t : FileTree) (place : Location) : Location :=
  if (t.get? place).isSome then place else place.dropLast

/-- Whether something can be put at a location. -/
def admits (t : FileTree) (place : Location) : Bool := !t.refuses (t.keeper place) .write

/-! ## Taking away -/

/-- Takes away a location and everything below it. -/
def remove (t : FileTree) (place : Location) : FileTree where
  entries := t.entries.filter fun e => !place.isPrefixOf e.1
  refusals := t.refusals.filter fun r => !place.isPrefixOf r.1

/-- Leaves a removed directory at each step of the way from one location to another. -/
def leave (t : FileTree) (base : Location) : List String → FileTree
  | [] => t
  | name :: below => (t.set (base ++ [name]) .removed).leave (base ++ [name]) below

/-- Takes away a location and everything below it, and says where somebody then stands who stood at
`here`. A name with a slash at its end is one that no segment of a path has. -/
def removeAround (t : FileTree) (place here : Location) : FileTree × Location :=
  if place.isPrefixOf here then
    let above := place.dropLast
    let way := (here.drop above.length).map (· ++ "/")
    ((t.remove place).leave above way, above ++ way)
  else (t.remove place, here)

/-! ## Walking -/

/-- Where a list of segments leads from a location. Nothing has to be there in the end, but
everything on the way has to be a directory, and every segment but an empty one has to be searched
for. -/
def walk (t : FileTree) : Location → List String → Except Fault Location
  | here, [] => .ok here
  | here, s :: rest =>
    match t.get? here with
    | none => .error .notFound
    | some (.file _) => .error .notDirectory
    | some .directory =>
      if t.refuses here .search ∧ s ≠ "" then .error .refused
      else if isTrivial s then t.walk here rest
      else if s = ".." then t.walk here.dropLast rest
      else if fits s then t.walk (here ++ [s]) rest
      else .error .unusable
    | some .removed =>
      if isTrivial s then t.walk here rest
      else if s = ".." then t.walk here.dropLast rest
      else .error .notFound

/-- The segments of a path that can be walked. -/
def route (path : String) : Except Fault (List String) :=
  if path = "" then .error .notFound
  else if usable path then .ok (segments path)
  else .error .unusable

/-- Where the walk of a path starts. -/
def startOf (here : Location) (path : String) : Location := if isAbsolute path then [] else here

/-- The location that a path leads to. -/
def resolve (t : FileTree) (here : Location) (path : String) : Except Fault Location := do
  t.walk (startOf here path) (← route path)

/-- What a path leads to, with its location. -/
def find (t : FileTree) (here : Location) (path : String) : Except Fault (Location × Entry) := do
  let place ← t.resolve here path
  match t.get? place with
  | some entry => pure (place, entry)
  | none => .error .notFound

/-- Whether a path leads to a directory. -/
def isDirectory (t : FileTree) (here : Location) (path : String) : Bool :=
  match t.find here path with
  | .ok (_, .directory) => true
  | .ok (_, .removed) => true
  | _ => false

/-- Where a new entry at a path would be: the walk of all segments but the last has to end at a
directory that can be searched, and the last has to be a name. -/
def site (t : FileTree) (start : Location) (parts : List String) : Except Fault Location :=
  match parts.getLast? with
  | none => .error .notFound
  | some name => do
    let above ← t.walk start parts.dropLast
    match t.get? above with
    | none => .error .notFound
    | some (.file _) => .error .notDirectory
    | some .directory =>
      if t.refuses above .search then .error .refused
      else if isTrivial name ∨ name = ".." then .error .alreadyThere
      else if fits name then .ok (above ++ [name])
      else .error .unusable
    | some .removed =>
      if isTrivial name ∨ name = ".." then .error .alreadyThere else .error .notFound

/-! ## Reading and writing files -/

/-- The bytes of the file that a path leads to. -/
def read (t : FileTree) (here : Location) (path : String) : Except Fault (List UInt8) := do
  match ← t.find here path with
  | (place, .file bytes) => if t.refuses place .read then .error .refused else pure bytes
  | _ => .error .isDirectory

/-- The text of the file that a path leads to, if it can be read and its bytes are UTF-8. -/
def readText? (t : FileTree) (here : Location) (path : String) : Option String :=
  match t.read here path with
  | .ok bytes => Text.ofUtf8? bytes
  | .error _ => none

/-- Writes a file, in the place of the file that was there. Its directory has to be there. -/
def write (t : FileTree) (here : Location) (path : String) (bytes : List UInt8) :
    Except Fault FileTree := do
  let place ← t.site (startOf here path) (← route path)
  match t.get? place with
  | some .directory => .error .isDirectory
  | some .removed => .error .isDirectory
  | _ => if t.admits place then pure (t.set place (.file bytes)) else .error .refused

/-! ## Making directories -/

/-- Makes one directory; its own directory has to be there. Slashes at the end of the path say
nothing. -/
def makeDirectory (t : FileTree) (here : Location) (path : String) : Except Fault FileTree := do
  let parts := ((← route path).reverse.dropWhile (· == "")).reverse
  let place ← if parts = [] then .error .alreadyThere else t.site (startOf here path) parts
  match t.get? place with
  | some _ => .error .alreadyThere
  | none => if t.admits place then pure (t.set place .directory) else .error .refused

/-- What came of making directories: the tree, also if it failed halfway, and whether it failed. -/
structure Outcome where
  tree : FileTree
  fault? : Option Fault

/-- Makes one directory, or is content with the one that is there. -/
def ensureDirectory (t : FileTree) (here : Location) (path : String) : Outcome :=
  match t.makeDirectory here path with
  | .ok t' => ⟨t', none⟩
  | .error fault => ⟨t, if t.isDirectory here path then none else some fault⟩

/-- Makes the directory at the first of several paths, each the parent of the one before it, and
first those of its parents that are not there. The empty path is always there. -/
def makeFirst (t : FileTree) (here : Location) : List String → Outcome
  | [] => ⟨t, some .notFound⟩
  | path :: above =>
    if path = "" then ⟨t, none⟩
    else
      match t.makeDirectory here path with
      | .error .notFound =>
        match t.makeFirst here above with
        | ⟨t', none⟩ => t'.ensureDirectory here path
        | failed => failed
      | _ => t.ensureDirectory here path

/-- Makes the directory at a path and all of its parents that are not there. -/
def makeDirectories (t : FileTree) (here : Location) (path : String) : Outcome :=
  t.makeFirst here (ancestors path)

end FileTree

end WorkerEnv.Storage
