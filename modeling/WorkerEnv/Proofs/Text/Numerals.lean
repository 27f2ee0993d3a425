/-
# WorkerEnv.Proofs.Text.Numerals -- the parts of a number

A number has a whole part, in which no zero stands before other digits, and perhaps a tail: a
fraction, an exponent, or both. A number with a tail is a decimal, and no decimal is written as an
integer is. The digits at the start of a number are its whole part.
-/

import Mathlib.Data.List.Basic
import WorkerEnv.Proofs.Text.Words

namespace WorkerEnv.Text

/-! ## Grammar -/

/-- At least one digit, and nothing else. -/
def isDigits (s : List Char) : Bool := !s.isEmpty && s.all Char.isDigit

/-- A whole part: digits, the first of several not zero. -/
def isWhole (s : List Char) : Bool := isDigits s && (s.head? != some '0' || s.length == 1)

/-- The rest after a sign, if there is one. -/
def afterSign : List Char → List Char
  | '+' :: r => r
  | '-' :: r => r
  | r => r

/-- An exponent: its mark, perhaps a sign, and digits. -/
def isExponent : List Char → Bool
  | c :: r => (c == 'e' || c == 'E') && isDigits (afterSign r)
  | [] => false

/-- What makes a number a decimal: a fraction, an exponent, or both. -/
def isTail : List Char → Bool
  | '.' :: r =>
    let rest := r.dropWhile Char.isDigit
    isDigits (r.takeWhile Char.isDigit) && (rest.isEmpty || isExponent rest)
  | r => isExponent r

/-- The characters of numbers. -/
def isNumeric (c : Char) : Bool := c.isDigit || c == '+' || c == '-' || c == '.' || c == 'e' || c == 'E'

/-! ## Whole parts and tails -/

section Parts

variable {s e whole tail : List Char}

theorem isDigits_iff : isDigits s ↔ s ≠ [] ∧ ∀ c ∈ s, c.isDigit := by
  cases s <;> simp [isDigits]

theorem isDigits_of_isWhole (h : isWhole s) : isDigits s := (Bool.and_eq_true_iff.1 h).1

theorem isWhole_of_head? (h : isDigits s) (hhead : s.head? ≠ some '0') : isWhole s := by
  simp [isWhole, h, hhead]

theorem isWhole_singleton {c : Char} (h : c.isDigit) : isWhole [c] := by
  simp [isWhole, isDigits, h]

theorem isExponent_signed (h : isDigits s) {sign : Char} (hsign : sign = '+' ∨ sign = '-') :
    isExponent ('e' :: sign :: s) := by
  rcases hsign with rfl | rfl <;> exact h

theorem exists_of_isExponent (h : isExponent e) :
    ∃ mark r, e = mark :: r ∧ (mark = 'e' ∨ mark = 'E') ∧ isDigits (afterSign r) := by
  cases e with
  | nil => cases h
  | cons mark r =>
    simp only [isExponent, Bool.and_eq_true, Bool.or_eq_true, beq_iff_eq] at h
    exact ⟨mark, r, rfl, h.1, h.2⟩

theorem stops_of_isExponent (h : isExponent e) : ∀ c ∈ e.head?, ¬ c.isDigit := by
  obtain ⟨mark, r, rfl, rfl | rfl, -⟩ := exists_of_isExponent h <;>
    simp

theorem isTail_of_exponent (h : isExponent e) : isTail e := by
  obtain ⟨mark, r, rfl, rfl | rfl, -⟩ := exists_of_isExponent h <;> exact h

theorem isTail_of_fraction (h : isDigits s) (he : e = [] ∨ isExponent e) :
    isTail ('.' :: s ++ e) := by
  have hstop : ∀ c ∈ e.head?, ¬ c.isDigit := by
    rcases he with rfl | he
    · simp
    · exact stops_of_isExponent he
  have hdigits := (isDigits_iff.1 h).2
  rw [List.cons_append, isTail, takeWhile_append_of_stop hdigits hstop,
    dropWhile_append_of_stop hdigits hstop]
  rcases he with rfl | he
  · simp [h]
  · simp [h, he]

/-- A tail is an exponent, or a fraction with perhaps an exponent. -/
theorem exists_of_isTail (h : isTail tail) : isExponent tail ∨
    ∃ s e, tail = '.' :: s ++ e ∧ isDigits s ∧ (e = [] ∨ isExponent e) := by
  unfold isTail at h
  split at h
  · next r =>
    obtain ⟨hdigits, hrest⟩ := Bool.and_eq_true_iff.1 h
    refine .inr ⟨r.takeWhile Char.isDigit, r.dropWhile Char.isDigit, ?_, hdigits, ?_⟩
    · rw [List.cons_append, List.takeWhile_append_dropWhile]
    · simpa using hrest
  · exact .inl h

theorem stops_of_isTail (h : isTail tail) : ∀ c ∈ tail.head?, ¬ c.isDigit := by
  rcases exists_of_isTail h with he | ⟨s, e, rfl, -⟩
  · exact stops_of_isExponent he
  · simp

/-! ## Characters -/

theorem isNumeric_of_isDigits (h : isDigits s) : ∀ c ∈ s, isNumeric c := by
  intro c hc
  simp [isNumeric, (isDigits_iff.1 h).2 c hc]

theorem isNumeric_of_isExponent (h : isExponent e) : ∀ c ∈ e, isNumeric c := by
  obtain ⟨mark, r, rfl, hmark, hdigits⟩ := exists_of_isExponent h
  refine List.forall_mem_cons.2 ⟨by rcases hmark with rfl | rfl <;> decide, ?_⟩
  unfold afterSign at hdigits
  split at hdigits
  · exact List.forall_mem_cons.2 ⟨by decide, isNumeric_of_isDigits hdigits⟩
  · exact List.forall_mem_cons.2 ⟨by decide, isNumeric_of_isDigits hdigits⟩
  · exact isNumeric_of_isDigits hdigits

theorem isNumeric_of_isTail (h : isTail tail) : ∀ c ∈ tail, isNumeric c := by
  rcases exists_of_isTail h with he | ⟨s, e, rfl, hs, he⟩
  · exact isNumeric_of_isExponent he
  · have hend : ∀ c ∈ e, isNumeric c := by
      rcases he with rfl | he
      · simp
      · exact isNumeric_of_isExponent he
    exact List.forall_mem_append.2
      ⟨List.forall_mem_cons.2 ⟨by decide, isNumeric_of_isDigits hs⟩, hend⟩

end Parts

/-! ## Natural numbers -/

theorem isDigits_toDigits (n : Nat) : isDigits (Nat.toDigits 10 n) :=
  isDigits_iff.2 ⟨Nat.toDigits_ne_nil,
    fun _ hc => Nat.isDigit_of_mem_toDigits (by decide) (by decide) hc⟩

theorem toDigits_head? {n : Nat} (h : n ≠ 0) : (Nat.toDigits 10 n).head? ≠ some '0' := by
  induction n using Nat.strongRecOn with
  | ind n ih =>
    rw [Nat.toDigits_eq_if (by decide)]
    split
    · simpa using mt Nat.digitChar_eq_zero.1 h
    · have hten : n / 10 ≠ 0 := by omega
      rw [List.head?_append_of_ne_nil _ Nat.toDigits_ne_nil]
      exact ih (n / 10) (by omega) hten

theorem isWhole_toDigits (n : Nat) : isWhole (Nat.toDigits 10 n) := by
  by_cases h : n = 0
  · subst h
    rfl
  · exact isWhole_of_head? (isDigits_toDigits n) (toDigits_head? h)

end WorkerEnv.Text
