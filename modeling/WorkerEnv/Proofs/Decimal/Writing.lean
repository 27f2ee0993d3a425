/-
# WorkerEnv.Proofs.Decimal.Writing -- what a finite double is written as

Every finite double is written as a number with a whole part and a tail, perhaps behind a sign. The
digits that are laid out are those of a natural number without the zeros at its end, and that number
is not zero: the interval of a positive double does not reach down to zero, so no multiple of a power
of ten that lies in it is zero. Hence there is a first digit, and it is not a zero.
-/

import Mathlib.Data.List.Basic
import WorkerEnv.Decimal.Layout
import WorkerEnv.Proofs.Text.Numerals

namespace WorkerEnv.Decimal

open Text

/-! ## The digits -/

/-- Digits that can be laid out: there are some, and a zero is in front only of a number below ten. -/
structure Digits.Regular (d : Digits) : Prop where
  digits : isDigits d.digits
  leading : d.digits.head? = some '0' → d.exponent = 0

/-- Characters taken away at the end do not change the front. -/
theorem head?_trimmed {c : Char} (hc : c ≠ '0') (s : List Char) :
    ((c :: s).reverse.dropWhile (· == '0')).reverse.head? = some c := by
  have hsplit : (c :: s).reverse.dropWhile (· == '0') = s.reverse.dropWhile (· == '0') ++ [c] := by
    rw [List.reverse_cons, List.dropWhile_append]
    split
    · next hempty =>
      rw [List.isEmpty_iff.1 hempty]
      simp [hc]
    · rfl
  rw [hsplit]
  simp

theorem regular_ofScaled {c : Nat} (h : c ≠ 0) (p : Int) : (Digits.ofScaled c p).Regular := by
  have hhead := toDigits_head? h
  have hdigits : ∀ x ∈ (Digits.ofScaled c p).digits, x.isDigit := by
    intro x hx
    have hmem := (List.dropWhile_sublist _).subset (List.mem_reverse.1 hx)
    exact Nat.isDigit_of_mem_toDigits (by decide) (by decide) (List.mem_reverse.1 hmem)
  cases hcs : Nat.toDigits 10 c with
  | nil => exact absurd hcs Nat.toDigits_ne_nil
  | cons first rest =>
    have hfirst : first ≠ '0' := by simpa [hcs] using hhead
    have hfront : (Digits.ofScaled c p).digits.head? = some first := by
      rw [Digits.ofScaled, hcs]
      exact head?_trimmed hfirst rest
    refine ⟨isDigits_iff.2 ⟨?_, hdigits⟩, ?_⟩
    · intro hnil
      rw [hnil] at hfront
      cases hfront
    · intro hzero
      rw [hfront] at hzero
      exact absurd (Option.some.inj hzero) hfirst

/-! ## The interval of a positive double -/

theorem Interval.low_pos {m : Nat} (h : m ≠ 0) (e : Int) : 0 < (Interval.ofDouble m e).low := by
  have hunit : 0 < (shifted 1 1 (2 - e)).1 := by
    unfold shifted
    split
    · exact Nat.one_pos
    · exact Nat.mul_pos Nat.one_pos (Nat.pow_pos (by decide))
  refine Nat.mul_pos ?_ hunit
  split <;> omega

/-- Zero is below every interval that does not begin with it. -/
theorem Interval.not_contains_zero {i : Interval} (h : 0 < i.low) (p : Int) :
    ¬ i.contains 0 p := by
  unfold Interval.contains
  split
  next n d hscale =>
    have hn : n = 0 := by
      split at hscale <;> simp_all
    have hd : 0 < d := by
      split at hscale
      · cases hscale
        exact Nat.one_pos
      · cases hscale
        exact Nat.pow_pos (by decide)
    have hlow : 0 < i.low * d := Nat.mul_pos h hd
    subst hn
    simp only [Nat.zero_mul]
    split
    · simp only [Bool.and_eq_true, decide_eq_true_eq]
      omega
    · simp only [Bool.and_eq_true, decide_eq_true_eq]
      omega

theorem Interval.contains_of_nearest? {i : Interval} {p : Int} {c : Nat}
    (h : i.nearest? p = some c) : i.contains c p := by
  unfold Interval.nearest? at h
  split at h
  next n d hscale =>
    extract_lets below up at h
    split at h
    · next hbelow hup =>
      split_ifs at h <;> rw [← Option.some.inj h] <;> assumption
    · next hbelow hup => rwa [← Option.some.inj h]
    · next hbelow hup => rwa [← Option.some.inj h]
    · cases h

theorem regular_shortest {m : Nat} (h : m ≠ 0) (e : Int) : (shortest m e).Regular := by
  unfold shortest
  extract_lets i k found
  cases hfound : found with
  | none => exact ⟨by decide, fun _ => rfl⟩
  | some d =>
    obtain ⟨n, -, hn⟩ := List.exists_of_findSome?_eq_some hfound
    obtain ⟨c, hc, rfl⟩ := Option.map_eq_some_iff.1 hn
    -- the digits come from a number in the interval of the double, and zero is not in it
    refine regular_ofScaled ?_ _
    rintro rfl
    exact Interval.not_contains_zero (Interval.low_pos h e) _ (Interval.contains_of_nearest? hc)

/-! ## The layouts -/

variable {d : Digits}

theorem isDigit_of_mem_zeros {n : Nat} {c : Char} (h : c ∈ List.replicate n '0') : c.isDigit := by
  rw [(List.mem_replicate.1 h).2]
  rfl

theorem isDigits_replicate_append (n : Nat) {s : List Char} (h : isDigits s) :
    isDigits (List.replicate n '0' ++ s) := by
  obtain ⟨hne, hs⟩ := isDigits_iff.1 h
  exact isDigits_iff.2 ⟨by simp [hne], List.forall_mem_append.2 ⟨fun _ => isDigit_of_mem_zeros, hs⟩⟩

/-- The digits before the point, zeros filled in up to it. -/
theorem isWhole_front (h : d.Regular) :
    isWhole (d.digits.take (d.exponent.toNat + 1) ++
      List.replicate (d.exponent.toNat + 1 - d.digits.length) '0') := by
  obtain ⟨hne, hdigits⟩ := isDigits_iff.1 h.digits
  cases hcs : d.digits with
  | nil => exact absurd hcs hne
  | cons c cs =>
    -- a zero is in front only when the exponent is zero, and then it is the whole part
    by_cases hc : c = '0'
    · subst hc
      have hexponent : d.exponent = 0 := h.leading (by rw [hcs]; rfl)
      simp [hexponent, isWhole, isDigits]
    · have hall : ∀ x ∈ (c :: cs).take (d.exponent.toNat + 1) ++
          List.replicate (d.exponent.toNat + 1 - (c :: cs).length) '0', x.isDigit := by
        refine List.forall_mem_append.2 ⟨?_, fun _ => isDigit_of_mem_zeros⟩
        intro x hx
        exact hdigits x (hcs ▸ List.mem_of_mem_take hx)
      exact isWhole_of_head? (isDigits_iff.2 ⟨by simp, hall⟩) (by simpa using hc)

theorem exists_positional (h : d.Regular) :
    ∃ whole tail, Layout.json.positional d = whole ++ tail ∧ isWhole whole ∧ isTail tail := by
  obtain ⟨hne, hdigits⟩ := isDigits_iff.1 h.digits
  unfold Layout.positional
  split
  · have htail := isTail_of_fraction
      (isDigits_replicate_append ((-d.exponent).toNat - 1) h.digits) (.inl rfl)
    rw [List.append_nil] at htail
    exact ⟨['0'], _, by simp, rfl, htail⟩
  · extract_lets n front
    have hfront : isWhole front := isWhole_front h
    split
    · exact ⟨front, ['.', '0'], rfl, hfront, rfl⟩
    · next rest hrest =>
      have hdrop : isDigits (d.digits.drop n) := by
        refine isDigits_iff.2 ⟨hrest, ?_⟩
        intro c hc
        exact hdigits c (List.mem_of_mem_drop hc)
      have htail := isTail_of_fraction hdrop (.inl rfl)
      rw [List.append_nil] at htail
      exact ⟨front, _, rfl, hfront, htail⟩

theorem exists_scientific (h : d.Regular) :
    ∃ whole tail, Layout.json.scientific d = whole ++ tail ∧ isWhole whole ∧ isTail tail := by
  have hexponent : isExponent ('e' :: (if d.exponent < 0 then ['-'] else ['+']) ++
      Nat.toDigits 10 d.exponent.natAbs) := by
    split
    · exact isExponent_signed (isDigits_toDigits _) (.inr rfl)
    · exact isExponent_signed (isDigits_toDigits _) (.inl rfl)
  obtain ⟨hne, hdigits⟩ := isDigits_iff.1 h.digits
  unfold Layout.scientific
  extract_lets mantissa sign
  cases hcs : d.digits with
  | nil => exact absurd hcs hne
  | cons c cs =>
    have hc : isWhole [c] := isWhole_singleton (hdigits c (by simp [hcs]))
    cases cs with
    | nil =>
      have hmantissa : mantissa = [c] := by simp only [mantissa, hcs]
      exact ⟨[c], _, by rw [hmantissa]; rfl, hc, isTail_of_exponent hexponent⟩
    | cons c' cs =>
      have hrest : isDigits (c' :: cs) := by
        refine isDigits_iff.2 ⟨by simp, ?_⟩
        intro x hx
        exact hdigits x (by simp [hcs, List.mem_cons.1 hx])
      have hmantissa : mantissa = c :: '.' :: c' :: cs := by simp only [mantissa, hcs]
      refine ⟨[c], _, ?_, hc, isTail_of_fraction hrest (.inr hexponent)⟩
      rw [hmantissa]
      exact List.append_assoc (c :: '.' :: c' :: cs) _ _

theorem exists_write (h : d.Regular) :
    ∃ whole tail, Layout.json.write d = whole ++ tail ∧ isWhole whole ∧ isTail tail := by
  unfold Layout.write
  split
  · exact exists_positional h
  · exact exists_scientific h

/-- A finite double is written as a number with a tail, a negative one behind a sign. -/
theorem exists_of_text? {x : Double} {t : List Char} (h : Layout.json.text? x = some t) :
    ∃ whole tail, (t = whole ++ tail ∨ t = '-' :: (whole ++ tail)) ∧ isWhole whole ∧
      isTail tail := by
  cases x with
  | nan => cases h
  | infinite negative => cases h
  | finite negative m e =>
    have hbody : ∃ whole tail,
        (if m = 0 then '0' :: Layout.json.whole else Layout.json.write (shortest m e)) =
          whole ++ tail ∧ isWhole whole ∧ isTail tail := by
      split
      · exact ⟨['0'], ['.', '0'], rfl, rfl, rfl⟩
      · next hm => exact exists_write (regular_shortest hm e)
    obtain ⟨whole, tail, hbody, hwhole, htail⟩ := hbody
    refine ⟨whole, tail, ?_, hwhole, htail⟩
    rw [← hbody]
    cases negative with
    | false => exact .inl (Option.some.inj h).symm
    | true => exact .inr (Option.some.inj h).symm

theorem text?_isSome (x : Double) : (Layout.json.text? x).isSome = x.isFinite := by
  cases x <;> rfl

end WorkerEnv.Decimal
