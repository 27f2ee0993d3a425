/-
# WorkerEnv.Proofs.Storage.Parents -- the lexical parents of a path, one step apart

Taking parents works on the text, from the end backwards. `Ladder` says what that comes to: each
parent ends in a step and has exactly one step less than the path before it, until nothing is left
to take away. Every parent is a beginning of the path, so a path that is short enough and free of
NUL has only such parents.
-/

import WorkerEnv.Proofs.Storage.Segments

namespace WorkerEnv.Storage

open Text

/-- Paths of which each has one step less than the one before it, from given steps down to none. All
of them start at the root, or none does. -/
inductive Ladder (fromRoot : Bool) : List String → List String → Prop
  | ground {path : String} {above : List String} :
      steps path = [] → isAbsolute path = fromRoot → Ladder fromRoot [] (path :: above)
  | rung {path s : String} {below before above : List String} :
      segments path = before ++ [s] → before.filter (!isTrivial ·) = below → IsStep s →
      isAbsolute path = fromRoot → Ladder fromRoot below above →
      Ladder fromRoot (below ++ [s]) (path :: above)

theorem Ladder.ne_nil {fromRoot : Bool} {parts paths : List String}
    (h : Ladder fromRoot parts paths) : paths ≠ [] := by
  cases h <;> simp

/-! ## Remainders -/

theorem remainders_dropWhile (parts : List String) :
    remainders (parts.dropWhile isTrivial) = remainders parts := by
  induction parts with
  | nil => rfl
  | cons s rest ih =>
    by_cases hs : isTrivial s
    · rw [List.dropWhile_cons_of_pos hs, ih, remainders, if_pos hs]
    · rw [List.dropWhile_cons_of_neg hs]

theorem suffix_of_mem_remainders {parts others : List String} (h : others ∈ remainders parts) :
    others <:+ parts := by
  induction parts with
  | nil => simp [remainders] at h
  | cons s rest ih =>
    rw [remainders] at h
    split at h
    · exact (ih h).trans (List.suffix_cons s rest)
    · rcases List.mem_cons.1 h with rfl | h
      · exact (List.dropWhile_suffix _).trans (List.suffix_cons s rest)
      · exact (ih h).trans (List.suffix_cons s rest)

/-! ## Rebuilding a path -/

theorem ofReversed_of_ne_nil {first : String} {others : List String} (hne : others ≠ []) :
    ofReversed first others = ofSegments (first :: others.reverse) := by
  cases others with
  | nil => exact absurd rfl hne
  | cons s rest => rfl

theorem segments_ofReversed {first : String} {others : List String} (hne : others ≠ [])
    (hf : '/' ∉ first.toList) (ho : ∀ s ∈ others, '/' ∉ s.toList) :
    segments (ofReversed first others) = first :: others.reverse := by
  rw [ofReversed_of_ne_nil hne]
  refine segments_ofSegments (by simp) ?_
  intro s hs
  rcases List.mem_cons.1 hs with rfl | hs
  · exact hf
  · exact ho s (List.mem_reverse.1 hs)

theorem isAbsolute_ofReversed {first : String} {others : List String} (hf : '/' ∉ first.toList)
    (ho : ∀ s ∈ others, '/' ∉ s.toList) :
    isAbsolute (ofReversed first others) = (first == "") := by
  rw [Bool.eq_iff_iff, beq_iff_eq]
  by_cases hne : others = []
  · subst hne
    by_cases h0 : first = ""
    · subst h0
      exact iff_of_true rfl rfl
    · rw [ofReversed, if_neg h0, isAbsolute_iff_segments (segments_of_no_slash hf)]
      simp [h0]
  · rw [isAbsolute_iff_segments (segments_ofReversed hne hf ho)]
    simp [hne]

/-- The paths that come from taking away segments, once the trailing ones that say nothing are
gone. -/
def rebuilt (first : String) (others : List String) : List String :=
  ofReversed first (others.dropWhile isTrivial) ::
    ((remainders others).map (ofReversed first) ++ if first = "" then [] else [""])

theorem ladder_rebuilt {first : String} {others : List String} (hf : '/' ∉ first.toList)
    (ho : ∀ s ∈ others, '/' ∉ s.toList) :
    Ladder (first == "") ((first :: others.reverse).filter (!isTrivial ·))
      (rebuilt first others) := by
  induction others with
  | nil =>
    -- Nothing stands after the first segment: it is the root, says nothing, or is the last rung.
    by_cases h0 : first = ""
    · subst h0
      exact .ground (by decide) rfl
    have hpath : ofReversed first [] = first := by rw [ofReversed, if_neg h0]
    have habs : isAbsolute first = (first == "") := by
      have h : isAbsolute (ofReversed first []) = (first == "") :=
        isAbsolute_ofReversed hf (by simp)
      rwa [hpath] at h
    by_cases ht : isTrivial first
    · have hsteps : steps first = [] := by simp [steps, segments_of_no_slash hf, ht]
      simpa [rebuilt, remainders, hpath, ht, h0] using .ground hsteps habs
    · have hground : Ladder (first == "") [] [""] := by
        refine .ground steps_empty ?_
        simp [h0, isAbsolute]
      have hseg : segments first = [] ++ [first] := segments_of_no_slash hf
      simpa [rebuilt, remainders, hpath, ht, h0] using Ladder.rung hseg rfl ⟨hf, ht⟩ habs hground
  | cons s rest ih =>
    have hrest := (List.forall_mem_cons.1 ho).2
    by_cases hs : isTrivial s
    · simpa [rebuilt, remainders, hs, List.filter_cons] using ih hrest
    · have hseg : segments (ofReversed first (s :: rest)) = (first :: rest.reverse) ++ [s] := by
        rw [segments_ofReversed (by simp) hf ho]
        simp
      have hrung := Ladder.rung hseg rfl ⟨ho s (by simp), hs⟩ (isAbsolute_ofReversed hf ho)
        (ih hrest)
      have hsteps : (first :: (s :: rest).reverse).filter (!isTrivial ·) =
          (first :: rest.reverse).filter (!isTrivial ·) ++ [s] := by
        rw [List.reverse_cons, ← List.cons_append, List.filter_append]
        simp [hs]
      rw [hsteps]
      simpa [rebuilt, remainders, hs] using hrung

theorem parents_of_segments {path first : String} {rest : List String}
    (h : segments path = first :: rest) :
    parents path =
      (remainders rest.reverse).map (ofReversed first) ++ if first = "" then [] else [""] := by
  simp only [parents, h]
  split <;> simp

/-! ## The parents of a path that ends in a step -/

/-- The nearest parent and all that lie above it, for a path that ends in a step. -/
theorem parents_eq_rebuilt {path first s : String} {middle : List String}
    (h : segments path = first :: (middle ++ [s])) (hs : ¬ isTrivial s) :
    parents path = rebuilt first middle.reverse := by
  rw [parents_of_segments h, List.reverse_append, List.reverse_singleton, List.singleton_append,
    remainders, if_neg hs, List.map_cons, List.cons_append, rebuilt]

/-- The parents of a path that ends in a step form a ladder, from all steps but the last. -/
theorem ladder_parents {path s : String} {before : List String}
    (h : segments path = before ++ [s]) (hs : IsStep s) :
    Ladder (isAbsolute path) (before.filter (!isTrivial ·)) (parents path) := by
  have hslash : ∀ q ∈ segments path, '/' ∉ q.toList := fun q => no_slash_of_mem_segments
  cases before with
  | nil =>
    have habs : isAbsolute path = false := by
      rw [Bool.eq_false_iff, ne_eq, isAbsolute_iff_segments h]
      simp
    have hpar : parents path = [""] := by
      simp [parents, h, remainders, hs.ne_empty]
    rw [hpar, habs]
    exact .ground steps_empty rfl
  | cons first middle =>
    rw [List.cons_append] at h
    have habs : isAbsolute path = (first == "") := by
      rw [Bool.eq_iff_iff, beq_iff_eq, isAbsolute_iff_segments h]
      simp
    rw [parents_eq_rebuilt h hs.not_trivial, habs]
    have hfirst : '/' ∉ first.toList := hslash first (by simp [h])
    have hmiddle : ∀ q ∈ middle.reverse, '/' ∉ q.toList := by
      intro q hq
      exact hslash q (by simp [h, List.mem_reverse.1 hq])
    have hladder := ladder_rebuilt hfirst hmiddle
    rwa [List.reverse_reverse] at hladder

theorem parents_ofReversed {first : String} {others : List String} (hf : '/' ∉ first.toList)
    (ho : ∀ s ∈ others, '/' ∉ s.toList) :
    parents (ofReversed first others) =
      (remainders others).map (ofReversed first) ++ if first = "" then [] else [""] := by
  by_cases hne : others = []
  · subst hne
    by_cases h0 : first = ""
    · subst h0
      decide
    · simp [ofReversed, parents, segments_of_no_slash hf, remainders, h0]
  · rw [parents_of_segments (segments_ofReversed hne hf ho), List.reverse_reverse]

/-! ## Parents of parents -/

theorem remainders_of_cons {parts others : List String} {more : List (List String)}
    (h : remainders parts = others :: more) : remainders others = more := by
  induction parts with
  | nil => cases h
  | cons s rest ih =>
    rw [remainders] at h
    split_ifs at h with hs
    · exact ih h
    · obtain ⟨rfl, rfl⟩ := List.cons.inj h
      exact remainders_dropWhile rest

/-- The parents of a path are its nearest parent and the parents of that. -/
theorem parents_eq_ancestors {path above : String} (h : parent? path = some above) :
    parents path = ancestors above := by
  obtain ⟨first, rest, hsegments⟩ := List.exists_cons_of_ne_nil (segments_ne_nil path)
  have hslash : ∀ s ∈ first :: rest, '/' ∉ s.toList := by
    rw [← hsegments]
    exact fun s => no_slash_of_mem_segments
  rw [parent?] at h
  rw [parents_of_segments hsegments] at h ⊢
  cases hremainders : remainders rest.reverse with
  | nil =>
    -- Only the empty path is left above a relative one.
    rw [hremainders] at h
    rw [List.map_nil, List.nil_append] at h ⊢
    split_ifs at h ⊢ with hfirst
    · cases h
    · cases h
      decide
  | cons others more =>
    rw [hremainders, List.map_cons, List.cons_append, List.head?_cons] at h
    cases h
    have hothers : ∀ s ∈ others, '/' ∉ s.toList := by
      intro s hs
      have hsuffix := suffix_of_mem_remainders (by rw [hremainders]; exact List.mem_cons_self)
      exact hslash s (by simp [List.mem_reverse.1 (hsuffix.subset hs)])
    rw [ancestors, parents_ofReversed (hslash first (by simp)) hothers,
      remainders_of_cons hremainders, List.map_cons, List.cons_append]

/-- The ancestors of a path are those of any path among them, and the ones before it. -/
theorem ancestors_of_append {path dir : String} {before after : List String}
    (h : ancestors path = before ++ dir :: after) : ancestors dir = dir :: after := by
  induction before generalizing path with
  | nil =>
    obtain ⟨rfl, rfl⟩ := List.cons.inj h
    rfl
  | cons first before ih =>
    have hparents : parents path = before ++ dir :: after := (List.cons.inj h).2
    cases hparent : parent? path with
    | none =>
      rw [parent?, hparents] at hparent
      simp at hparent
    | some above =>
      rw [parents_eq_ancestors hparent] at hparents
      exact ih hparents

/-! ## Parents as texts -/

theorem exists_append_of_prefix {l m : List String} (hl : l ≠ []) :
    ∃ rest, ofSegments (l ++ m) = ofSegments l ++ rest := by
  by_cases hm : m = []
  · exact ⟨"", by simp [hm]⟩
  · exact ⟨"/" ++ ofSegments m, by rw [ofSegments_append hl hm, String.append_assoc]⟩

/-- Every parent of a path is a beginning of it. -/
theorem exists_append_of_mem_parents {path above : String} (h : above ∈ parents path) :
    ∃ rest, path = above ++ rest := by
  have hpath := ofSegments_segments path
  cases hseg : segments path with
  | nil => exact absurd hseg (segments_ne_nil path)
  | cons first rest =>
    have hcase : (∃ others ∈ remainders rest.reverse, ofReversed first others = above) ∨
        above = "" := by
      simp only [parents, hseg] at h
      split at h
      · exact Or.inl (List.mem_map.1 h)
      · rcases List.mem_append.1 h with h | h
        · exact Or.inl (List.mem_map.1 h)
        · exact Or.inr (by simpa using h)
    rw [hseg] at hpath
    rcases hcase with ⟨others, hmem, rfl⟩ | rfl
    · -- What is left after taking segments away stands at the start of the segments.
      obtain ⟨front, hfront⟩ := suffix_of_mem_remainders hmem
      have hrest : rest = others.reverse ++ front.reverse := by
        rw [← List.reverse_append, hfront, List.reverse_reverse]
      cases others with
      | nil =>
        have hne : rest ≠ [] := by
          rintro rfl
          simp [remainders] at hmem
        rw [← List.singleton_append, ofSegments_append (by simp) hne] at hpath
        rw [← hpath, ofReversed, ofSegments_singleton]
        split
        · next h0 => exact ⟨ofSegments rest, by simp [h0]⟩
        · exact ⟨"/" ++ ofSegments rest, by rw [String.append_assoc]⟩
      | cons q qs =>
        rw [hrest, ← List.cons_append] at hpath
        obtain ⟨tail, htail⟩ :=
          exists_append_of_prefix (l := first :: (q :: qs).reverse) (m := front.reverse) (by simp)
        exact ⟨tail, by rw [← hpath, htail, ofReversed_of_ne_nil (by simp)]⟩
    · exact ⟨path, by simp⟩

end WorkerEnv.Storage
