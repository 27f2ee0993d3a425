/-
# WorkerEnv.Proofs.Toml.Repetition -- when a repetition is done

`Runs` says what the steps of a repetition find one after the other, without the count of steps that
bounds the repetition itself. As long as each step that goes on takes a character, the bound is never
met, and `all` finds the same.
-/

import WorkerEnv.Toml.Reader

namespace WorkerEnv.Toml

variable {α : Type} {step : Reader (Step α)}

/-- The steps from a text on, what they find, and what they leave. -/
inductive Runs (step : Reader (Step α)) : List Char → List α → List Char → Prop where
  | stop {s r : List Char} (h : step s = some (.stop, r)) : Runs step s [] r
  | last {s r : List Char} {a : α} (h : step s = some (.last a, r)) : Runs step s [a] r
  | more {s r r' : List Char} {a : α} {as : List α} (h : step s = some (.more a, r))
      (hless : r.length < s.length) (hrest : Runs step r as r') : Runs step s (a :: as) r'

theorem Runs.upTo {s r : List Char} {as : List α} (h : Runs step s as r) {fuel : List Char}
    (hfuel : s.length < fuel.length) : upTo step fuel s = some (as, r) := by
  induction fuel generalizing s as with
  | nil => cases hfuel
  | cons _ fuel ih =>
    rw [Toml.upTo]
    cases h with
    | stop h => rw [h]
    | last h => rw [h]
    | more h hless hrest =>
      rw [List.length_cons] at hfuel
      rw [h]
      simp only [ih hrest (by omega)]

theorem Runs.all {s r : List Char} {as : List α} (h : Runs step s as r) :
    all step s = some (as, r) :=
  h.upTo (Nat.lt_succ_self s.length)

end WorkerEnv.Toml
