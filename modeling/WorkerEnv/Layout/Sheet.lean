/-
# WorkerEnv.Layout.Sheet -- elements with blank lines between them

A sheet is a sequence of elements, each a list of blocks. Its text is that of the elements, with one
blank line between neighbours, also where an element has no text at all.
-/

import WorkerEnv.Layout.Draft

namespace WorkerEnv.Layout

/-- The elements of a file, in order. -/
structure Sheet where
  elements : List (List Block)

namespace Sheet

/-- A sheet without elements. -/
def empty : Sheet := ⟨[]⟩

/-- Adds an element at the end. -/
def push (s : Sheet) (element : List Block) : Sheet := ⟨s.elements ++ [element]⟩

/-- Adds elements at the end. -/
def append (s : Sheet) (elements : List (List Block)) : Sheet := ⟨s.elements ++ elements⟩

/-- Writes elements, each after a blank line. -/
def continued (d : Draft) : List (List Block) → Draft
  | [] => d
  | e :: es => continued (d.blank.blocks e) es

/-- Writes elements with blank lines between them. -/
def written (d : Draft) : List (List Block) → Draft
  | [] => d
  | e :: es => continued (d.blocks e) es

/-- The text of a sheet. -/
def text (s : Sheet) : String := (written (Draft.empty Draft.standardWidth) s.elements).text

end Sheet

end WorkerEnv.Layout
