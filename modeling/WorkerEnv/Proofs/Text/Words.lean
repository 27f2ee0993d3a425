/-
# WorkerEnv.Proofs.Text.Words -- pieces and words, by where they stand

A piece of a text stands between two separators, or between a separator and an end of the text, and
holds none itself. A word is such a piece that is not empty, blanks being the separators. That the
words of a text are those before and those after any of its blanks (`words_append_cons`) is all that
the other facts about words need.
-/

import WorkerEnv.Text.Pieces

namespace WorkerEnv.Text

/-! ## Cutting a text in two -/

/-- A text is free of separators, or has a first one. -/
theorem exists_first_separator (p : Char → Bool) (s : List Char) :
    (∀ c ∈ s, ¬ p c) ∨ ∃ q c t, s = q ++ c :: t ∧ (∀ d ∈ q, ¬ p d) ∧ p c := by
  cases hfind : s.find? p with
  | none => exact .inl (List.find?_eq_none.1 hfind)
  | some c =>
    obtain ⟨hc, q, t, rfl, hq⟩ := List.find?_eq_some_iff_append.1 hfind
    refine .inr ⟨q, c, t, rfl, ?_, hc⟩
    intro d hd
    simpa using hq d hd

/-- What follows the last separator of a text, and what stands before. -/
theorem exists_cut_last (p : Char → Bool) (s : List Char) :
    ∃ front q, s = front ++ q ∧ (∀ c ∈ q, ¬ p c) ∧ ∀ c ∈ front.getLast?, p c := by
  induction s with
  | nil => exact ⟨[], [], rfl, by simp, by simp⟩
  | cons d s ih =>
    obtain ⟨front, q, rfl, hq, hfront⟩ := ih
    cases front with
    | nil =>
      by_cases hd : p d
      · exact ⟨[d], q, rfl, hq, by simpa using hd⟩
      · exact ⟨[], d :: q, rfl, List.forall_mem_cons.2 ⟨hd, hq⟩, by simp⟩
    | cons e front =>
      refine ⟨d :: e :: front, q, rfl, hq, ?_⟩
      rwa [List.getLast?_cons_cons]

section Stretch

variable {p : Char → Bool} {s rest : List Char}

/-- A stretch of some characters, up to the end of the text or a character that is none of them. -/
theorem takeWhile_append_of_stop (hs : ∀ c ∈ s, p c) (hrest : ∀ c ∈ rest.head?, ¬ p c) :
    (s ++ rest).takeWhile p = s := by
  rw [List.takeWhile_append_of_pos hs]
  cases rest with
  | nil => rw [List.takeWhile_nil, List.append_nil]
  | cons c r => rw [List.takeWhile_cons_of_neg (hrest c rfl), List.append_nil]

theorem dropWhile_append_of_stop (hs : ∀ c ∈ s, p c) (hrest : ∀ c ∈ rest.head?, ¬ p c) :
    (s ++ rest).dropWhile p = rest := by
  rw [List.dropWhile_append_of_pos hs]
  cases rest with
  | nil => rfl
  | cons c r => exact List.dropWhile_cons_of_neg (hrest c rfl)

end Stretch

/-! ## Pieces -/

section Pieces

variable {p : Char → Bool} {s q : List Char}

/-- The pieces of a text that begins with a piece. -/
theorem mem_pieces_append (hq : ∀ c ∈ q, ¬ p c) {after : List Char}
    (hafter : ∀ c ∈ after.head?, p c) : q ∈ pieces p (q ++ after) := by
  cases after with
  | nil =>
    rw [List.append_nil, pieces_of_forall hq]
    exact List.mem_singleton_self q
  | cons c t =>
    rw [pieces_append_cons (hafter c rfl), pieces_of_forall hq]
    exact List.mem_cons_self

/-- A piece holds no separator, and what stands next to it on either side is one, if anything. -/
theorem mem_pieces_iff : q ∈ pieces p s ↔ ∃ before after, s = before ++ q ++ after ∧
    (∀ c ∈ q, ¬ p c) ∧ (∀ c ∈ before.getLast?, p c) ∧ ∀ c ∈ after.head?, p c := by
  constructor
  · intro h
    -- by the length of the text: what follows the first separator is shorter
    induction hn : s.length using Nat.strongRecOn generalizing s with
    | _ n ih =>
      rcases exists_first_separator p s with hnone | ⟨q₀, c, t, rfl, hq₀, hc⟩
      · rw [pieces_of_forall hnone] at h
        obtain rfl := List.mem_singleton.1 h
        exact ⟨[], [], by simp, hnone, by simp, by simp⟩
      · rw [pieces_append_cons hc, pieces_of_forall hq₀] at h
        rcases List.mem_cons.1 h with rfl | hrest
        · exact ⟨[], c :: t, by simp, hq₀, by simp, by simpa using hc⟩
        · have hlt : t.length < n := by
            rw [← hn, List.length_append, List.length_cons]
            omega
          obtain ⟨before, after, rfl, hq, hbefore, hafter⟩ := ih _ hlt hrest rfl
          refine ⟨q₀ ++ c :: before, after, by simp, hq, ?_, hafter⟩
          cases before with
          | nil => simpa using hc
          | cons d before => simpa using hbefore
  · rintro ⟨before, after, rfl, hq, hbefore, hafter⟩
    have hmem := mem_pieces_append hq hafter
    rcases List.eq_nil_or_concat before with rfl | ⟨front, c, rfl⟩
    · exact hmem
    · have hc : p c := hbefore c (by simp)
      have hsplit : front.concat c ++ q ++ after = front ++ c :: (q ++ after) := by simp
      rw [hsplit, pieces_append_cons hc]
      exact List.mem_append_right _ hmem

end Pieces

/-! ## Words -/

section Words

variable {s t w : List Char}

theorem words_append_cons {c : Char} (hc : isBlank c) (s t : List Char) :
    words (s ++ c :: t) = words s ++ words t := by
  rw [words, pieces_append_cons hc, List.filter_append, words, words]

theorem words_nil : words [] = [] := rfl

theorem words_of_blank (h : ∀ c ∈ s, isBlank c) : words s = [] := by
  induction s with
  | nil => exact words_nil
  | cons c s ih =>
    obtain ⟨hc, hs⟩ := List.forall_mem_cons.1 h
    have hsplit := words_append_cons hc [] s
    rw [List.nil_append, words_nil, List.nil_append] at hsplit
    rw [hsplit, ih hs]

theorem words_of_word (hne : w ≠ []) (h : ∀ c ∈ w, ¬ isBlank c) : words w = [w] := by
  rw [words, pieces_of_forall h]
  simp [hne]

/-- Text after a blank begins a new word. -/
theorem words_append_of_blank (h : ∀ c ∈ s.getLast?, isBlank c) (t : List Char) :
    words (s ++ t) = words s ++ words t := by
  rcases List.eq_nil_or_concat s with rfl | ⟨front, c, rfl⟩
  · rfl
  · have hc : isBlank c := h c (by simp)
    have hsplit : front.concat c ++ t = front ++ c :: t := by simp
    rw [hsplit, words_append_cons hc, List.concat_eq_append, words_append_cons hc, words_nil,
      List.append_nil]

theorem words_append_blanks (h : ∀ c ∈ t, isBlank c) (s : List Char) :
    words (s ++ t) = words s := by
  cases t with
  | nil => rw [List.append_nil]
  | cons c t =>
    obtain ⟨hc, ht⟩ := List.forall_mem_cons.1 h
    rw [words_append_cons hc, words_of_blank ht, List.append_nil]

/-- The form of a word: not empty, and without a blank. -/
structure Unbroken (w : List Char) : Prop where
  nonempty : w ≠ []
  solid : ∀ c ∈ w, ¬ isBlank c

/-- The last word of a text has only blanks after it and, unless it begins the text, a blank before
it. -/
theorem words_eq_concat_iff {ws : List (List Char)} (hw : Unbroken w) :
    words s = ws ++ [w] ↔ ∃ front tail, s = front ++ w ++ tail ∧ (∀ c ∈ tail, isBlank c) ∧
      (∀ c ∈ front.getLast?, isBlank c) ∧ words front = ws := by
  constructor
  · intro h
    obtain ⟨text, tail, rfl, htail, hlast⟩ := exists_cut_last (fun c => !isBlank c) s
    replace htail : ∀ c ∈ tail, isBlank c := by simpa using htail
    rw [words_append_blanks htail] at h
    obtain ⟨front, q, rfl, hq, hfront⟩ := exists_cut_last isBlank text
    have hne : q ≠ [] := by
      rintro rfl
      rw [List.append_nil] at h hlast
      cases hc : front.getLast? with
      | none =>
        rw [List.getLast?_eq_none_iff.1 hc, words_nil] at h
        simp at h
      | some c =>
        have hblank := hfront c hc
        have hsolid := hlast c hc
        simp [hblank] at hsolid
    rw [words_append_of_blank hfront, words_of_word hne hq] at h
    obtain ⟨hws, hword⟩ := List.append_inj' h rfl
    obtain rfl := List.singleton_inj.1 hword
    exact ⟨front, tail, rfl, htail, hfront, hws⟩
  · rintro ⟨front, tail, rfl, htail, hfront, rfl⟩
    rw [words_append_blanks htail, words_append_of_blank hfront, words_of_word hw.nonempty hw.solid]

end Words

end WorkerEnv.Text
