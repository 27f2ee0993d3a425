/-
# WorkerEnv.Text.Pieces -- cutting a text at separators

`pieces p s` cuts `s` at every character that satisfies `p` and keeps the empty pieces, so a text
with `n` separators has `n + 1` pieces. `glue` puts a separator back between them; cutting at one
character and gluing with it is the identity.
-/

import WorkerEnv.Text.Blank

namespace WorkerEnv.Text

/-- The maximal stretches of `s` between characters that satisfy `p`, empty ones included. -/
def pieces (p : Char → Bool) : List Char → List (List Char)
  | [] => [[]]
  | c :: cs =>
    if p c then [] :: pieces p cs
    else
      match pieces p cs with
      | [] => [[c]]
      | q :: qs => (c :: q) :: qs

/-- The pieces in order with one separator between neighbours. -/
def glue (sep : Char) : List (List Char) → List Char
  | [] => []
  | [q] => q
  | q :: r :: qs => q ++ sep :: glue sep (r :: qs)

/-- The words of a text: its maximal stretches without a blank. -/
def words (s : List Char) : List (List Char) := (pieces isBlank s).filter (!·.isEmpty)

theorem pieces_ne_nil (p : Char → Bool) (s : List Char) : pieces p s ≠ [] := by
  cases s with
  | nil => simp [pieces]
  | cons c cs =>
    simp only [pieces]
    split
    · simp
    · split <;> simp

theorem glue_pieces (sep : Char) (s : List Char) : glue sep (pieces (· == sep) s) = s := by
  induction s with
  | nil => rfl
  | cons c cs ih =>
    simp only [pieces]
    have hne := pieces_ne_nil (· == sep) cs
    cases h : pieces (· == sep) cs with
    | nil => exact absurd h hne
    | cons q qs =>
      rw [h] at ih
      by_cases hc : c = sep
      · simp [hc, glue, ih]
      · cases qs with
        | nil => simp_all [glue]
        | cons r rs => simp_all [glue]

theorem pieces_append_cons {p : Char → Bool} {c : Char} (hc : p c) (s t : List Char) :
    pieces p (s ++ c :: t) = pieces p s ++ pieces p t := by
  induction s with
  | nil => simp [pieces, hc]
  | cons d s ih =>
    by_cases hd : p d
    · simp [pieces, hd, ih]
    · simp only [List.cons_append, pieces, hd, Bool.false_eq_true, if_false, ih]
      cases h : pieces p s with
      | nil => exact absurd h (pieces_ne_nil p s)
      | cons q qs => rfl

theorem pieces_of_forall {p : Char → Bool} {s : List Char} (h : ∀ c ∈ s, ¬ p c) :
    pieces p s = [s] := by
  induction s with
  | nil => rfl
  | cons c s ih =>
    have hc : p c = false := by simpa using h c (by simp)
    simp [pieces, hc, ih fun d hd => h d (by simp [hd])]

theorem forall_of_mem_pieces {p : Char → Bool} {s q : List Char} (h : q ∈ pieces p s) :
    ∀ c ∈ q, ¬ p c := by
  induction s generalizing q with
  | nil => simp_all [pieces]
  | cons d s ih =>
    by_cases hd : p d
    · simp only [pieces, hd, if_true, List.mem_cons] at h
      rcases h with rfl | h
      · simp
      · exact ih h
    · simp only [pieces, hd, Bool.false_eq_true, if_false] at h
      cases hs : pieces p s with
      | nil => exact absurd hs (pieces_ne_nil p s)
      | cons r rs =>
        rw [hs] at h ih
        rcases List.mem_cons.1 h with rfl | h
        · intro c hc
          rcases List.mem_cons.1 hc with rfl | hc
          · exact hd
          · exact ih (by simp) c hc
        · exact ih (by simp [h])

end WorkerEnv.Text
