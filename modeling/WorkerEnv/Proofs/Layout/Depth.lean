/-
# WorkerEnv.Proofs.Layout.Depth -- blocks on any level

The outline of a block on the outermost level says how deep each of its lines stands in the block.
On another level the lines are the same in the same order, each deeper by that level. So writing a
block adds its lines, each behind the spaces of the present level and of its own depth, and writing
it some levels deeper adds the same lines, each behind the spaces of these levels.
-/

import WorkerEnv.Proofs.Layout.Outline

namespace WorkerEnv.Layout

/-! ## Lines behind spaces -/

/-- A number of spaces. -/
def blanks (n : Nat) : String := String.ofList (List.replicate n ' ')

/-- A line behind a number of spaces. -/
def indented (n : Nat) (s : String) : String := blanks n ++ s ++ "\n"

theorem blanks_add (m n : Nat) : blanks (m + n) = blanks m ++ blanks n := by
  rw [blanks, ← List.replicate_append_replicate, String.ofList_append, blanks, blanks]

theorem indented_add (m n : Nat) (s : String) :
    indented (m + n) s = blanks m ++ indented n s := by
  rw [indented, blanks_add, indented, String.append_assoc, String.append_assoc, String.append_assoc]

theorem spaces_eq (width level : Nat) : Draft.spaces width level = blanks (width * level) := by
  rw [Draft.spaces]
  generalize width * level = n
  induction n with
  | zero => rfl
  | succ n ih =>
    rw [blanks_add, ← ih, String.pushn_eq_repeat_push, String.pushn_eq_repeat_push]
    rfl

theorem lineText_eq (width : Nat) (l : Leveled) :
    lineText width l = indented (width * l.1) l.2 := by
  rw [lineText, spaces_eq, indented]

/-! ## Deeper lines -/

/-- A line some levels deeper. -/
def deeper (k : Nat) (l : Leveled) : Leveled := (k + l.1, l.2)

mutual

/-- The level on which a block is written is added to the depth of each of its lines. -/
theorem outline_add (k level : Nat) :
    ∀ b : Block, b.outline (k + level) = (b.outline level).map (deeper k)
  | .line s => rfl
  | .nested opening inner closing => by
    have hclosing : closing.toList.map (k + level, ·) =
        (closing.toList.map (level, ·)).map (deeper k) := by
      rw [List.map_map]
      rfl
    rw [Block.outline, Block.outline, List.map_append, List.map_cons, Nat.add_assoc,
      outlines_add k (level + 1) inner, hclosing]
    rfl

theorem outlines_add (k level : Nat) :
    ∀ bs : List Block, outlines (k + level) bs = (outlines level bs).map (deeper k)
  | [] => rfl
  | b :: bs => by
    rw [outlines, outlines, List.map_append, outline_add k level b, outlines_add k level bs]

end

/-- On a level, each line of a block stands behind the spaces of this level and of its depth. -/
theorem linesText_outline (width level : Nat) (b : Block) :
    linesText width (b.outline level) =
      String.join ((b.outline 0).map fun l => indented (width * (level + l.1)) l.2) := by
  have hlevel : b.outline level = (b.outline 0).map (deeper level) := outline_add level 0 b
  have hline : lineText width ∘ deeper level = fun l => indented (width * (level + l.1)) l.2 := by
    funext l
    rw [Function.comp_apply, lineText_eq, deeper]
  rw [linesText, hlevel, List.map_map, hline]

namespace Draft

/-- A draft some levels deeper. -/
def raised (d : Draft) (k : Nat) : Draft := { d with level := d.level + k }

/-- Writing a block adds its lines in order, each behind the spaces of the present level and of its
depth in the block, and changes nothing else. Some levels deeper it adds the same lines, each behind
the spaces of these levels. -/
theorem block_account (d : Draft) (b : Block) :
    d.block b = d.add
      (String.join ((b.outline 0).map fun l => indented (d.width * (d.level + l.1)) l.2)) ∧
    ∀ k, (d.raised k).block b = (d.raised k).add
      (String.join ((b.outline 0).map fun l =>
        blanks (d.width * k) ++ indented (d.width * (d.level + l.1)) l.2)) := by
  constructor
  · rw [block_eq, linesText_outline]
  · intro k
    have hspaces : ∀ l : Leveled, indented (d.width * (d.level + k + l.1)) l.2 =
        blanks (d.width * k) ++ indented (d.width * (d.level + l.1)) l.2 := by
      intro l
      rw [← indented_add, ← Nat.mul_add, Nat.add_comm d.level k, Nat.add_assoc]
    rw [block_eq, linesText_outline]
    simp only [raised, hspaces]

end Draft

end WorkerEnv.Layout
