/-
# WorkerEnv.Proofs.Script.Projection -- blanking twice is blanking once

Code is literal-free if it has no quote and nowhere the opening of a comment. What blanking leaves
is literal-free: a quote is never kept, and what stands after a kept slash is either kept too or the
space that a literal leaves, so the two open a comment only if they did so in the script. Code that
is literal-free is left as it is. So blanking projects the scripts onto the literal-free ones, and
the form of a script is that of its code.
-/

import WorkerEnv.Proofs.Script.Regions

namespace WorkerEnv.Script

/-! ## Literal-free code -/

/-- Code without quotes and without the opening of a comment. -/
structure LiteralFree (code : List Char) : Prop where
  noDoubleQuote : '\x22' ∉ code
  noSingleQuote : '\x27' ∉ code
  noBacktick : '\x60' ∉ code
  noLineComment : ¬ ['/', '/'] <:+: code
  noBlockComment : ¬ ['/', '*'] <:+: code

/-- Nowhere in the text a comment is opened. -/
def OpensNowhere (s : List Char) : Prop := ∀ t, t <:+ s → ¬ opensComment t

theorem opensNowhere_nil : OpensNowhere [] := by
  intro t ht
  rw [List.suffix_nil.1 ht]
  exact Bool.false_ne_true

theorem opensNowhere_cons {c : Char} {s : List Char} :
    OpensNowhere (c :: s) ↔ ¬ opensComment (c :: s) ∧ OpensNowhere s := by
  constructor
  · intro h
    exact ⟨h _ List.suffix_rfl, fun t ht => h t (ht.trans (List.suffix_cons c s))⟩
  · rintro ⟨hhead, htail⟩ t ht
    rcases List.suffix_cons_iff.1 ht with rfl | ht
    · exact hhead
    · exact htail t ht

theorem OpensNowhere.cons {c : Char} {s : List Char} (h : OpensNowhere s) (hc : c ≠ '/') :
    OpensNowhere (c :: s) :=
  opensNowhere_cons.2 ⟨not_opensComment_of_ne hc s, h⟩

theorem opensComment_iff {s : List Char} :
    opensComment s ↔ ['/', '/'] <+: s ∨ ['/', '*'] <+: s := by
  match s with
  | [] => simp [opensComment]
  | [c] => simp [opensComment, List.cons_prefix_cons]
  | c :: d :: r =>
    simp only [opensComment, Bool.and_eq_true, Bool.or_eq_true, beq_iff_eq, List.cons_prefix_cons,
      List.nil_prefix, and_true, eq_comm (a := '/'), eq_comm (a := '*'), and_or_left]

theorem opensNowhere_iff {s : List Char} :
    OpensNowhere s ↔ ¬ ['/', '/'] <:+: s ∧ ¬ ['/', '*'] <:+: s := by
  have hopens : (∃ t, t <:+ s ∧ opensComment t) ↔ ['/', '/'] <:+: s ∨ ['/', '*'] <:+: s := by
    simp only [opensComment_iff, List.infix_iff_prefix_suffix, and_or_left, exists_or, and_comm]
  rw [← not_or, ← hopens, not_exists]
  exact forall_congr' fun t => not_and.symm

theorem forall_not_isQuote_iff {s : List Char} :
    (∀ c ∈ s, ¬ isQuote c) ↔ '\x22' ∉ s ∧ '\x27' ∉ s ∧ '\x60' ∉ s := by
  have hquote : ∀ c, isQuote c ↔ c = '\x22' ∨ c = '\x27' ∨ c = '\x60' := by
    intro c
    simp only [isQuote, Text.quoteMark, Bool.or_eq_true, beq_iff_eq, or_assoc]
  constructor
  · intro h
    exact ⟨fun hmem => h _ hmem rfl, fun hmem => h _ hmem rfl, fun hmem => h _ hmem rfl⟩
  · rintro ⟨hdouble, hsingle, hback⟩ c hc hq
    rcases (hquote c).1 hq with rfl | rfl | rfl
    · exact hdouble hc
    · exact hsingle hc
    · exact hback hc

theorem literalFree_iff {s : List Char} :
    LiteralFree s ↔ (∀ c ∈ s, ¬ isQuote c) ∧ OpensNowhere s := by
  rw [forall_not_isQuote_iff, opensNowhere_iff]
  constructor
  · intro h
    exact ⟨⟨h.noDoubleQuote, h.noSingleQuote, h.noBacktick⟩, h.noLineComment, h.noBlockComment⟩
  · rintro ⟨⟨hdouble, hsingle, hback⟩, hline, hblock⟩
    exact ⟨hdouble, hsingle, hback, hline, hblock⟩

/-! ## What blanking leaves -/

/-- The scanner goes over a text by the opening of a comment or by one character at a time. -/
theorem scan_induction {motive : Mode → List Char → Prop} (nil : ∀ mode, motive mode [])
    (lineComment : ∀ r, motive .lineComment r → motive .code ('/' :: '/' :: r))
    (blockComment : ∀ r, motive (.blockComment false) r → motive .code ('/' :: '*' :: r))
    (character : ∀ mode c r, (mode = .code → ¬ opensComment (c :: r)) →
      motive (mode.next c) r → motive mode (c :: r))
    (mode : Mode) (s : List Char) : motive mode s := by
  fun_induction modeAfter mode s with
  | case1 mode => exact nil mode
  | case2 r ih => exact lineComment r ih
  | case3 r ih => exact blockComment r ih
  | case4 mode c r hline hblock ih =>
    refine character mode c r (fun hmode => ?_) ih
    exact not_opensComment_of_forall (fun t => hline t hmode) (fun t => hblock t hmode)

theorem not_isQuote_of_mem_leaves {mode : Mode} {c d : Char} (h : d ∈ mode.leaves c) :
    ¬ isQuote d := by
  cases mode with
  | code =>
    rw [Mode.leaves] at h
    split at h
    · rw [List.mem_singleton.1 h]
      decide
    · next hc =>
      rw [List.mem_singleton.1 h]
      exact hc
  | lineComment =>
    rw [Mode.leaves] at h
    split at h
    · next hc =>
      rw [List.mem_singleton.1 h, hc]
      decide
    · cases h
  | blockComment star => cases h
  | literal quote escaping => cases h

theorem not_isQuote_of_mem_blankedIn (mode : Mode) (s : List Char) :
    ∀ d ∈ blankedIn mode s, ¬ isQuote d := by
  induction mode, s using scan_induction with
  | nil mode =>
    rw [blankedIn_nil]
    exact List.forall_mem_nil _
  | lineComment r ih => exact ih
  | blockComment r ih => exact List.forall_mem_cons.2 ⟨by decide, ih⟩
  | character mode c r hopens ih =>
    rw [blankedIn_cons hopens]
    intro d hd
    rcases List.mem_append.1 hd with hd | hd
    · exact not_isQuote_of_mem_leaves hd
    · exact ih d hd

theorem eq_slash_of_opensComment {c : Char} {r : List Char} (h : opensComment (c :: r)) : c = '/' :=
  Decidable.byContradiction fun hc => not_opensComment_of_ne hc r h

/-- A character opens a comment with what is left of the text behind it only if it opens one with
the text itself. -/
theorem opensComment_of_blanked {c : Char} {r : List Char}
    (h : opensComment (c :: blankedIn .code r)) : opensComment (c :: r) := by
  cases r with
  | nil => exact h
  | cons d t =>
    by_cases hopens : opensComment (d :: t)
    · -- two slashes, whatever is left of the text
      rw [eq_slash_of_opensComment h, eq_slash_of_opensComment hopens]
      rfl
    · rw [blankedIn_cons fun _ => hopens, Mode.leaves] at h
      split at h
      · -- the space that a literal leaves
        simp [opensComment] at h
      · exact h

theorem opensNowhere_blankedIn (mode : Mode) (s : List Char) : OpensNowhere (blankedIn mode s) := by
  induction mode, s using scan_induction with
  | nil mode =>
    rw [blankedIn_nil]
    exact opensNowhere_nil
  | lineComment r ih => exact ih
  | blockComment r ih => exact ih.cons (by decide)
  | character mode c r hopens ih =>
    rw [blankedIn_cons hopens]
    cases mode with
    | code =>
      rw [Mode.leaves, Mode.next]
      rw [Mode.next] at ih
      split
      · next hc =>
        rw [if_pos hc] at ih
        exact ih.cons (by decide)
      · next hc =>
        -- a kept character: with what is left behind it, it opens no more than in the script
        rw [if_neg hc] at ih
        exact opensNowhere_cons.2 ⟨fun h => hopens rfl (opensComment_of_blanked h), ih⟩
    | lineComment =>
      rw [Mode.leaves]
      split
      · next hc => exact ih.cons (by rw [hc]; decide)
      · exact ih
    | blockComment star => exact ih
    | literal quote escaping => exact ih

theorem literalFree_blanked (s : List Char) : LiteralFree (blanked s) :=
  literalFree_iff.2 ⟨not_isQuote_of_mem_blankedIn .code s, opensNowhere_blankedIn .code s⟩

/-! ## Blanking again -/

theorem LiteralFree.blanked_eq {s : List Char} (h : LiteralFree s) : blanked s = s := by
  obtain ⟨hquotes, hopens⟩ := literalFree_iff.1 h
  unfold blanked
  induction s with
  | nil => rfl
  | cons c s ih =>
    obtain ⟨hc, hquotes⟩ := List.forall_mem_cons.1 hquotes
    obtain ⟨hcs, hopens⟩ := opensNowhere_cons.1 hopens
    have hs := ih (literalFree_iff.2 ⟨hquotes, hopens⟩) hquotes hopens
    rw [blankedIn_cons fun _ => hcs, Mode.leaves, Mode.next, if_neg hc, if_neg hc, hs]
    rfl

theorem blanked_eq_self_iff {s : List Char} : blanked s = s ↔ LiteralFree s := by
  constructor
  · intro h
    rw [← h]
    exact literalFree_blanked s
  · exact LiteralFree.blanked_eq

/-- What blanking leaves of a script is literal-free, blanking it again leaves it as it is, and it
has the form of the script. No other text is left as it is. -/
theorem blanked_account (source : String) :
    LiteralFree (blanked source.toList) ∧
    blanked (blanked source.toList) = blanked source.toList ∧
    formatOf (String.ofList (blanked source.toList)) = formatOf source ∧
    (blanked source.toList = source.toList ↔ LiteralFree source.toList) := by
  have hfree := literalFree_blanked source.toList
  refine ⟨hfree, hfree.blanked_eq, ?_, blanked_eq_self_iff⟩
  rw [formatOf, formatOf, String.toList_ofList, hfree.blanked_eq]

/-- The slashes around a literal do not meet. -/
example : blanked "a/'b'/c/*d*/'e".toList = "a/ /c  ".toList := by decide

end WorkerEnv.Script
