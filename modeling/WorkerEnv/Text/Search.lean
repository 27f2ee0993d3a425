/-
# WorkerEnv.Text.Search -- occurrences of one list in another

An occurrence of `needle` in a list is named by what stands before it and what follows it.
`cutFirst?` gives the leftmost occurrence, `cutLast?` the rightmost, and `occursIn` only says
whether there is one. All three work on any type with a Boolean equality: the same search serves
characters and bytes.
-/

namespace WorkerEnv.Text

variable {α : Type} [BEq α]

/-- What follows `needle` in a list that begins with it. -/
def afterPrefix? : (needle s : List α) → Option (List α)
  | [], s => some s
  | _ :: _, [] => none
  | n :: ns, c :: cs => if n == c then afterPrefix? ns cs else none

/-- The leftmost occurrence of `needle`: what stands before it and what follows it. -/
def cutFirst? (needle : List α) : List α → Option (List α × List α)
  | [] => (afterPrefix? needle []).map ([], ·)
  | c :: cs =>
    match afterPrefix? needle (c :: cs) with
    | some rest => some ([], rest)
    | none => (cutFirst? needle cs).map fun (before, rest) => (c :: before, rest)

/-- The rightmost occurrence of `needle`: what stands before it and what follows it. -/
def cutLast? (needle : List α) : List α → Option (List α × List α)
  | [] => (afterPrefix? needle []).map ([], ·)
  | c :: cs =>
    match cutLast? needle cs with
    | some (before, rest) => some (c :: before, rest)
    | none => (afterPrefix? needle (c :: cs)).map ([], ·)

/-- Whether `needle` stands somewhere in the list without a gap. -/
def occursIn (needle s : List α) : Bool := (cutFirst? needle s).isSome

/-! ## What the cuts mean -/

theorem eq_append_of_afterPrefix? [LawfulBEq α] {needle s rest : List α}
    (h : afterPrefix? needle s = some rest) : s = needle ++ rest := by
  induction needle generalizing s with
  | nil => simpa [afterPrefix?] using h
  | cons n ns ih =>
    cases s with
    | nil => simp [afterPrefix?] at h
    | cons c cs =>
      by_cases hc : n = c
      · subst hc
        simp only [afterPrefix?, beq_self_eq_true, if_true] at h
        rw [ih h, List.cons_append]
      · simp [afterPrefix?, hc] at h

@[simp]
theorem afterPrefix?_append [ReflBEq α] (needle rest : List α) :
    afterPrefix? needle (needle ++ rest) = some rest := by
  induction needle with
  | nil => rfl
  | cons n ns ih => simp [afterPrefix?, ih]

theorem eq_of_cutFirst? [LawfulBEq α] {needle s before rest : List α}
    (h : cutFirst? needle s = some (before, rest)) : s = before ++ needle ++ rest := by
  induction s generalizing before with
  | nil =>
    obtain ⟨r, hr, he⟩ := Option.map_eq_some_iff.1 h
    cases he
    simpa using eq_append_of_afterPrefix? hr
  | cons c cs ih =>
    simp only [cutFirst?] at h
    split at h
    · next r hr =>
      cases h
      simpa using eq_append_of_afterPrefix? hr
    · obtain ⟨⟨b, r⟩, hr, he⟩ := Option.map_eq_some_iff.1 h
      cases he
      simp [ih hr]

theorem eq_of_cutLast? [LawfulBEq α] {needle s before rest : List α}
    (h : cutLast? needle s = some (before, rest)) : s = before ++ needle ++ rest := by
  induction s generalizing before with
  | nil =>
    obtain ⟨r, hr, he⟩ := Option.map_eq_some_iff.1 h
    cases he
    simpa using eq_append_of_afterPrefix? hr
  | cons c cs ih =>
    simp only [cutLast?] at h
    split at h
    · next b r hr =>
      cases h
      simp [ih hr]
    · obtain ⟨r, hr, he⟩ := Option.map_eq_some_iff.1 h
      cases he
      simpa using eq_append_of_afterPrefix? hr

/-- A list that holds the needle can be cut there, at the latest. -/
theorem cutFirst?_isSome [ReflBEq α] (before needle rest : List α) :
    (cutFirst? needle (before ++ needle ++ rest)).isSome := by
  induction before with
  | nil =>
    have hafter : afterPrefix? needle (needle ++ rest) = some rest := afterPrefix?_append needle rest
    rw [List.nil_append]
    cases hs : needle ++ rest with
    | nil =>
      rw [hs] at hafter
      simp [cutFirst?, hafter]
    | cons c cs =>
      rw [hs] at hafter
      simp [cutFirst?, hafter]
  | cons c before ih =>
    rw [List.cons_append, List.cons_append, cutFirst?]
    split
    · rfl
    · rw [Option.isSome_map]
      exact ih

/-- The needle does not stand further to the left than where the list is cut first. -/
theorem length_le_of_cutFirst? [LawfulBEq α] {needle s before rest b r : List α}
    (h : cutFirst? needle s = some (before, rest)) (hs : s = b ++ needle ++ r) :
    before.length ≤ b.length := by
  induction s generalizing before b with
  | nil =>
    obtain ⟨_, _, he⟩ := Option.map_eq_some_iff.1 h
    cases he
    exact Nat.zero_le _
  | cons c cs ih =>
    simp only [cutFirst?] at h
    split at h
    · cases h
      exact Nat.zero_le _
    · next hnone =>
      cases b with
      | nil =>
        rw [List.nil_append] at hs
        rw [hs, afterPrefix?_append] at hnone
        cases hnone
      | cons c' b =>
        obtain ⟨rfl, hcs⟩ : c = c' ∧ cs = b ++ needle ++ r := by simpa using hs
        obtain ⟨⟨before', rest'⟩, hcut, he⟩ := Option.map_eq_some_iff.1 h
        cases he
        exact Nat.succ_le_succ (ih hcut hcs)

/-- A list that holds the needle can be cut there, at the earliest. -/
theorem cutLast?_isSome [ReflBEq α] (before needle rest : List α) :
    (cutLast? needle (before ++ needle ++ rest)).isSome := by
  induction before with
  | nil =>
    have hafter : afterPrefix? needle (needle ++ rest) = some rest := afterPrefix?_append needle rest
    rw [List.nil_append]
    cases hs : needle ++ rest with
    | nil =>
      rw [hs] at hafter
      simp [cutLast?, hafter]
    | cons c cs =>
      rw [hs] at hafter
      rw [cutLast?]
      split
      · rfl
      · simp [hafter]
  | cons c before ih =>
    obtain ⟨cut, hcut⟩ := Option.isSome_iff_exists.1 ih
    rw [List.cons_append, List.cons_append, cutLast?, hcut]
    rfl

/-- The needle does not stand further to the right than where the list is cut last. -/
theorem length_le_of_cutLast? [LawfulBEq α] {needle s before rest b r : List α}
    (h : cutLast? needle s = some (before, rest)) (hs : s = b ++ needle ++ r) :
    b.length ≤ before.length := by
  induction s generalizing before b with
  | nil =>
    simp only [List.nil_eq, List.append_eq_nil_iff] at hs
    simp [hs.1.1]
  | cons c cs ih =>
    cases b with
    | nil => exact Nat.zero_le _
    | cons c' b =>
      obtain ⟨rfl, hcs⟩ : c = c' ∧ cs = b ++ needle ++ r := by simpa using hs
      simp only [cutLast?] at h
      split at h
      · next before' rest' hcut =>
        cases h
        simpa using ih hcut hcs
      · next hcut => exact absurd (hcs ▸ cutLast?_isSome b needle r) (by simp [hcut])

/-- Cutting at the last occurrence of one element leaves none behind. -/
theorem notMem_of_cutLast?_singleton [LawfulBEq α] {a : α} {s before rest : List α}
    (h : cutLast? [a] s = some (before, rest)) : a ∉ rest := by
  intro hmem
  obtain ⟨b, r, hrest⟩ := List.append_of_mem hmem
  have hs : s = (before ++ [a] ++ b) ++ [a] ++ r := by
    simp [eq_of_cutLast? h, hrest]
  have hle := length_le_of_cutLast? h hs
  simp only [List.length_append, List.length_singleton] at hle
  omega

theorem occursIn_iff [LawfulBEq α] {needle s : List α} : occursIn needle s ↔ needle <:+: s := by
  constructor
  · intro h
    obtain ⟨⟨before, rest⟩, hcut⟩ := Option.isSome_iff_exists.1 h
    exact ⟨before, rest, (eq_of_cutFirst? hcut).symm⟩
  · rintro ⟨before, rest, rfl⟩
    exact cutFirst?_isSome before needle rest

end WorkerEnv.Text
