/-
# WorkerEnv.Layout.Draft -- indented text

A draft holds the text written so far and the level of the next line. Every step only adds to the
text. A line takes `width` spaces per level, a blank line takes none, and the level can not go below
zero: an outdent that has nothing to take back is forgotten.
-/

import WorkerEnv.Layout.Block

namespace WorkerEnv.Layout

/-- Text under construction. -/
structure Draft where
  /-- The number of spaces per level. -/
  width : Nat
  level : Nat
  text : String
  deriving Repr

namespace Draft

/-- The width of the generated declarations. -/
def standardWidth : Nat := 2

/-- A draft in which nothing has been written. -/
def empty (width : Nat) : Draft := ⟨width, 0, ""⟩

/-- The indentation of a line on a level. -/
def spaces (width level : Nat) : String := "".pushn ' ' (width * level)

/-! ## Steps -/

/-- Writes a line. -/
def line (d : Draft) (s : String) : Draft :=
  { d with text := d.text ++ (spaces d.width d.level ++ s ++ "\n") }

/-- Writes an empty line. -/
def blank (d : Draft) : Draft := { d with text := d.text ++ "\n" }

/-- Goes one level deeper. -/
def indent (d : Draft) : Draft := { d with level := d.level + 1 }

/-- Goes one level back, if there is one. -/
def outdent (d : Draft) : Draft := { d with level := d.level - 1 }

/-- Writes a line, if there is one. -/
def line? (d : Draft) : Option String → Draft
  | some s => d.line s
  | none => d

mutual

/-- Writes a block at the present level. -/
def block (d : Draft) : Block → Draft
  | .line s => d.line s
  | .nested opening inner closing =>
    (((d.line opening).indent.blocks inner).outdent).line? closing

/-- Writes blocks in order. -/
def blocks (d : Draft) : List Block → Draft
  | [] => d
  | b :: bs => (d.block b).blocks bs

end

end Draft

/-! ## Programs -/

/-- One step in writing a draft. -/
inductive Step where
  | line (s : String)
  | blank
  | indent
  | outdent
  | blocks (bs : List Block)

/-- Takes one step. -/
def Draft.step (d : Draft) : Step → Draft
  | .line s => d.line s
  | .blank => d.blank
  | .indent => d.indent
  | .outdent => d.outdent
  | .blocks bs => d.blocks bs

/-- Takes steps in order. -/
def Draft.run (d : Draft) (steps : List Step) : Draft := steps.foldl Draft.step d

/-- What one step adds to the text. -/
def Draft.added (d : Draft) (s : Step) : String := ({ d with text := "" }.step s).text

/-- What each of several steps adds to the text. -/
def Draft.addedBy (d : Draft) : List Step → List String
  | [] => []
  | s :: rest => d.added s :: (d.step s).addedBy rest

end WorkerEnv.Layout
