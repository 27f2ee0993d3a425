/-
# WorkerEnv.Proofs.Layout.Outline -- the lines that blocks are written as

`outlines` lists the lines of blocks in the order in which they are written, each with its level.
Writing blocks adds exactly these lines to a draft, each behind its indentation, and leaves the level
as it was; so elements that are written one after the other do not depend on each other, and the
text of a sheet is that of its elements with line feeds between them.
-/

import WorkerEnv.Layout.Sheet

namespace WorkerEnv.Layout

/-! ## Outlines -/

/-- A line with the level that it stands on. -/
abbrev Leveled := Nat × String

mutual

/-- The lines of a block whose first line stands on a level. -/
def Block.outline (level : Nat) : Block → List Leveled
  | .line s => [(level, s)]
  | .nested opening inner closing =>
    (level, opening) :: outlines (level + 1) inner ++ closing.toList.map (level, ·)

/-- The lines of blocks in order. -/
def outlines (level : Nat) : List Block → List Leveled
  | [] => []
  | b :: bs => b.outline level ++ outlines level bs

end

/-- A line as it is written. -/
def lineText (width : Nat) (l : Leveled) : String := Draft.spaces width l.1 ++ l.2 ++ "\n"

/-- Lines as they are written. -/
def linesText (width : Nat) (ls : List Leveled) : String := String.join (ls.map (lineText width))

theorem linesText_nil (width : Nat) : linesText width [] = "" := rfl

theorem linesText_cons (width : Nat) (l : Leveled) (ls : List Leveled) :
    linesText width (l :: ls) = lineText width l ++ linesText width ls := by
  rw [linesText, List.map_cons, String.join_cons, linesText]

theorem linesText_append (width : Nat) (ls more : List Leveled) :
    linesText width (ls ++ more) = linesText width ls ++ linesText width more := by
  rw [linesText, List.map_append, String.join_append, linesText, linesText]

namespace Draft

/-! ## Writing blocks -/

/-- A draft with more text. -/
def add (d : Draft) (s : String) : Draft := { d with text := d.text ++ s }

theorem add_add (d : Draft) (s s' : String) : (d.add s).add s' = d.add (s ++ s') := by
  rw [add, add, add, String.append_assoc]

theorem add_empty (d : Draft) : d.add "" = d := by
  rw [add, String.append_empty]

theorem line_eq (d : Draft) (s : String) : d.line s = d.add (lineText d.width (d.level, s)) := rfl

theorem blank_eq (d : Draft) : d.blank = d.add "\n" := rfl

theorem line?_eq (d : Draft) (closing : Option String) :
    d.line? closing = d.add (linesText d.width (closing.toList.map (d.level, ·))) := by
  cases closing with
  | none => exact (add_empty d).symm
  | some s =>
    rw [line?, line_eq, Option.toList_some, List.map_singleton, linesText_cons, linesText_nil,
      String.append_empty]

/-- Going in, adding text and going out again only adds the text. -/
theorem outdent_add_indent (d : Draft) (s : String) : (d.indent.add s).outdent = d.add s := rfl

mutual

theorem block_eq (d : Draft) : ∀ b : Block, d.block b = d.add (linesText d.width (b.outline d.level))
  | .line s => by
    rw [block, line_eq, Block.outline, linesText_cons, linesText_nil, String.append_empty]
  | .nested opening inner closing => by
    rw [block, blocks_eq _ inner, line_eq, outdent_add_indent, line?_eq, add_add, add_add,
      Block.outline, List.cons_append, linesText_cons, linesText_append]
    rfl

/-- Writing blocks adds their lines and nothing else. -/
theorem blocks_eq (d : Draft) :
    ∀ bs : List Block, d.blocks bs = d.add (linesText d.width (outlines d.level bs))
  | [] => (add_empty d).symm
  | b :: bs => by
    rw [blocks, block_eq d b, blocks_eq _ bs, add_add, outlines, linesText_append]
    rfl

end

end Draft

/-! ## Sheets -/

namespace Sheet

/-- The text of an element by itself. -/
def elementText (element : List Block) : String :=
  linesText Draft.standardWidth (outlines 0 element)

theorem continued_eq (d : Draft) (elements : List (List Block)) :
    continued d elements =
      d.add (String.join (elements.map fun e => "\n" ++ linesText d.width (outlines d.level e))) := by
  induction elements generalizing d with
  | nil => exact (d.add_empty).symm
  | cons e es ih =>
    rw [continued, ih, Draft.blocks_eq, Draft.blank_eq, Draft.add_add, Draft.add_add, List.map_cons,
      String.join_cons, String.append_assoc]
    rfl

/-- The text of a sheet is that of its elements, each but the first after a line feed. -/
theorem text_cons (e : List Block) (es : List (List Block)) :
    text ⟨e :: es⟩ = elementText e ++ String.join (es.map fun e => "\n" ++ elementText e) := by
  rw [text, written, continued_eq, Draft.blocks_eq, Draft.add_add]
  exact String.empty_append

end Sheet

end WorkerEnv.Layout
