/-
# WorkerEnv.Storage.Path -- paths as text

A path is a text in which slashes separate segments. This module knows only the text: joining two
paths, and the lexical parents of a path. An empty segment or a dot says nothing, except a dot at
the very start, and is passed over when a parent is taken; two dots are a segment like any other.
What a path leads to is a question for the file tree.
-/

import WorkerEnv.Text.Pieces

namespace WorkerEnv.Storage

open Text

/-- A place in a file tree: the names on the way to it from the root. -/
abbrev Location := List String

/-! ## Segments -/

/-- The segments of a path, empty ones included. -/
def segments (path : String) : List String :=
  (pieces (· == '/') path.toList).map String.ofList

/-- Whether a path starts at the root. -/
def isAbsolute (path : String) : Bool := path.toList.head? == some '/'

/-- Whether a segment says nothing. -/
def isTrivial (segment : String) : Bool := segment == "" || segment == "."

/-- The segments of a path that say something. -/
def steps (path : String) : List String := (segments path).filter (!isTrivial ·)

/-- The path with the given segments. -/
def ofSegments (parts : List String) : String := "/".intercalate parts

/-- The path of a location. -/
def locationText (place : Location) : String := "/" ++ ofSegments place

/-- The locations that a list of segments passes, if all of them are there. -/
def passed (here : Location) : List String → List Location
  | [] => [here]
  | s :: rest =>
    if isTrivial s then passed here rest
    else if s = ".." then here :: passed here.dropLast rest
    else here :: passed (here ++ [s]) rest

/-! ## Joining -/

/-- One path taken relative to another. An absolute path stays what it is; otherwise nothing is
changed on either side and one slash is put between them if there is none. -/
def join (base path : String) : String :=
  if isAbsolute path then path
  else if base = "" ∨ base.toList.getLast? = some '/' then base ++ path
  else base ++ "/" ++ path

/-! ## Parents -/

/-- What is left of a path after its first segment, from the end backwards, when one segment is
taken away after the other. Segments that say nothing go along with the one before them. -/
def remainders : List String → List (List String)
  | [] => []
  | s :: rest => if isTrivial s then remainders rest else rest.dropWhile isTrivial :: remainders rest

/-- A path from its first segment and the others backwards. -/
def ofReversed (first : String) (others : List String) : String :=
  match others with
  | [] => if first = "" then "/" else first
  | _ => ofSegments (first :: others.reverse)

/-- The lexical parents of a path, nearest first: up to the root for an absolute path, up to the
empty path for a relative one. -/
def parents (path : String) : List String :=
  match segments path with
  | [] => []
  | first :: rest =>
    let above := (remainders rest.reverse).map (ofReversed first)
    if first = "" then above else above ++ [""]

/-- The lexical parent of a path. -/
def parent? (path : String) : Option String := (parents path).head?

/-- A path and its lexical parents. -/
def ancestors (path : String) : List String := path :: parents path

/-- The path as an absolute one without segments that say nothing. Two dots stay. Exactly two
slashes at the start stay as well. The empty path has no absolute form. -/
def absolute? (here : Location) (path : String) : Option String :=
  if path = "" then none
  else if isAbsolute path then
    match path.toList with
    | '/' :: '/' :: '/' :: _ => some (locationText (steps path))
    | '/' :: '/' :: _ => some ("/" ++ locationText (steps path))
    | _ => some (locationText (steps path))
  else some (locationText (here ++ steps path))

end WorkerEnv.Storage
