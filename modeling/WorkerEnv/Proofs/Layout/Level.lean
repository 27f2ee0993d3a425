/-
# WorkerEnv.Proofs.Layout.Level -- the level after any steps

A step moves the level up by one, down by one or not at all, and never below zero. So the level is
not the balance of the steps, their indents less their outdents, but what the balance has risen
since it was lowest: an outdent with nothing to take back lowers the balance below all that came
before it, and is forgotten. Blocks, one of them or those of a declaration, go in and out again and
leave the level as it was. Every step adds its text at the end, and later steps only add to it.
-/

import Mathlib.Data.List.Induction
import Mathlib.Order.Bounds.Basic
import WorkerEnv.Proofs.Layout.Depth

namespace WorkerEnv.Layout

/-! ## The balance of steps -/

/-- How far a step moves the level when there is room below. -/
def Step.shift : Step → Int
  | .line _ => 0
  | .blank => 0
  | .indent => 1
  | .outdent => -1
  | .blocks _ => 0

/-- The indents among steps, less the outdents. -/
def balance : List Step → Int
  | [] => 0
  | s :: steps => s.shift + balance steps

theorem balance_concat (steps : List Step) (s : Step) :
    balance (steps ++ [s]) = balance steps + s.shift := by
  induction steps with
  | nil =>
    show s.shift + 0 = 0 + s.shift
    exact Int.add_comm _ _
  | cons first steps ih => rw [List.cons_append, balance, ih, balance, Int.add_assoc]

/-- The balances that steps go through, from none of them to all of them. -/
def balances (steps : List Step) : Set Int := balance '' {p | p <+: steps}

theorem balances_nil : balances [] = {0} := by
  have hprefixes : {p : List Step | p <+: []} = {[]} := by
    ext p
    exact List.prefix_nil
  rw [balances, hprefixes, Set.image_singleton]
  rfl

theorem balances_concat (steps : List Step) (s : Step) :
    balances (steps ++ [s]) = insert (balance (steps ++ [s])) (balances steps) := by
  have hprefixes : {p | p <+: steps ++ [s]} = insert (steps ++ [s]) {p | p <+: steps} := by
    ext p
    exact List.prefix_concat_iff
  rw [balances, hprefixes, Set.image_insert_eq, balances]

namespace Draft

/-! ## One step -/

/-- Blocks go in and out again. -/
theorem level_blocks (d : Draft) (bs : List Block) : (d.blocks bs).level = d.level := by
  rw [blocks_eq, add]

/-- A step moves the level by its shift, but not below zero. -/
theorem level_step (d : Draft) (s : Step) :
    ((d.step s).level : Int) = max 0 (d.level + s.shift) := by
  cases s with
  | line s | blank =>
    show (d.level : Int) = max 0 (d.level + 0)
    omega
  | indent =>
    show ((d.level + 1 : Nat) : Int) = max 0 ((d.level : Int) + 1)
    omega
  | outdent =>
    show ((d.level - 1 : Nat) : Int) = max 0 ((d.level : Int) + -1)
    omega
  | blocks bs =>
    show ((d.blocks bs).level : Int) = max 0 (d.level + 0)
    rw [level_blocks]
    omega

theorem width_step (d : Draft) (s : Step) : (d.step s).width = d.width := by
  cases s with
  | blocks bs => rw [step, blocks_eq, add]
  | _ => rfl

/-- A step leaves the text as it is and adds its own at the end. -/
theorem text_step (d : Draft) (s : Step) : (d.step s).text = d.text ++ d.added s := by
  cases s with
  | line s => rw [added, step, step, line, line, String.empty_append]
  | blank => rfl
  | indent => exact String.append_empty.symm
  | outdent => exact String.append_empty.symm
  | blocks bs => rw [added, step, step, blocks_eq, blocks_eq, add, add, String.empty_append]

/-! ## Runs -/

theorem run_append (d : Draft) (steps more : List Step) :
    d.run (steps ++ more) = (d.run steps).run more := List.foldl_append

theorem run_concat (d : Draft) (steps : List Step) (s : Step) :
    d.run (steps ++ [s]) = (d.run steps).step s := run_append d steps [s]

theorem width_run (d : Draft) (steps : List Step) : (d.run steps).width = d.width := by
  induction steps using List.reverseRecOn with
  | nil => rfl
  | append_singleton steps s ih => rw [run_concat, width_step, ih]

theorem text_run (d : Draft) (steps : List Step) :
    (d.run steps).text = d.text ++ String.join (d.addedBy steps) := by
  induction steps generalizing d with
  | nil => exact String.append_empty.symm
  | cons s steps ih =>
    have hrun : d.run (s :: steps) = (d.step s).run steps := rfl
    rw [hrun, ih, text_step, addedBy, String.join_cons, String.append_assoc]

/-- The level is what the balance has risen since it was lowest. -/
theorem level_run (width : Nat) (steps : List Step) :
    ∃ low, IsLeast (balances steps) low ∧
      (((empty width).run steps).level : Int) = balance steps - low := by
  induction steps using List.reverseRecOn with
  | nil =>
    rw [balances_nil]
    exact ⟨0, isLeast_singleton, rfl⟩
  | append_singleton steps s ih =>
    obtain ⟨low, hlow, hlevel⟩ := ih
    -- a step that is stopped at zero takes the balance to a new lowest value
    refine ⟨min (balance (steps ++ [s])) low, ?_, ?_⟩
    · rw [balances_concat]
      exact hlow.insert _
    · rw [run_concat, level_step, hlevel, balance_concat]
      omega

/-- After any steps from an empty draft, the level is their balance less the lowest balance on the
way. The next line stands behind so many units of spaces, and a blank line behind none. The text is
made of what the steps added, one after the other, and further steps only add to it. -/
theorem run_account (width : Nat) (steps : List Step) :
    let d := (empty width).run steps
    (∃ low, IsLeast (balances steps) low ∧ (d.level : Int) = balance steps - low) ∧
    (∀ s, (d.step (.line s)).text = d.text ++ indented (width * d.level) s) ∧
    (d.step .blank).text = d.text ++ "\n" ∧
    d.text = String.join ((empty width).addedBy steps) ∧
    ∀ more, ((empty width).run (steps ++ more)).text = d.text ++ String.join (d.addedBy more) := by
  intro d
  have hwidth : d.width = width := width_run (empty width) steps
  refine ⟨level_run width steps, ?_, rfl, ?_, ?_⟩
  · intro s
    rw [step, line_eq, add, lineText_eq, hwidth]
  · have htext := text_run (empty width) steps
    rw [empty, String.empty_append] at htext
    exact htext
  · intro more
    rw [run_append, text_run]

/-- Two outdents find nothing to take back, so the indent after them counts in full. -/
example : ((empty 2).run [.outdent, .indent, .outdent, .outdent, .indent, .line "x"]).text =
    "  x\n" := by
  decide +kernel

end Draft

end WorkerEnv.Layout
