/-
# WorkerEnv.Proofs.Storage.Standing -- walks from wherever somebody stands

A current directory can be taken away, and everything above it too, while somebody stands in it. What
is left is that all of these are directories, there or taken away: never a file, and never nothing.
Taking something away under somebody's feet keeps it so. It is enough to say how a walk comes to a
file: through a directory that is there, by the name of the file.
-/

import WorkerEnv.Proofs.Storage.Walk

namespace WorkerEnv.Storage.FileTree

variable {t t' : FileTree} {here place start : Location} {parts : List String}

/-- A location holds a directory, there or taken away. -/
def IsFloor (t : FileTree) (place : Location) : Prop :=
  t.get? place = some .directory ∨ t.get? place = some .removed

theorem IsFloor.of_eq (h : t.IsFloor place) (heq : t'.get? place = t.get? place) :
    t'.IsFloor place := by
  rwa [IsFloor, heq]

/-- Somebody can stand at a location: it is a directory, there or taken away, and so is all that lies
above it. -/
def Stands (t : FileTree) (here : Location) : Prop := ∀ above, above <+: here → t.IsFloor above

theorem stands_root (t : FileTree) : t.Stands [] := by
  intro above habove
  rw [List.prefix_nil.1 habove]
  exact Or.inl (get?_root t)

theorem WellFormed.stands (ht : t.WellFormed) (hhere : t.get? here = some .directory) :
    t.Stands here := by
  rintro above ⟨below, rfl⟩
  exact Or.inl (ht.directory_of_append hhere)

theorem Stands.self (h : t.Stands here) : t.IsFloor here := h here (List.prefix_refl here)

theorem Stands.of_prefix (h : t.Stands here) (hplace : place <+: here) : t.Stands place :=
  fun above habove => h above (habove.trans hplace)

theorem Stands.concat (h : t.Stands here) {s : String} (hs : t.IsFloor (here ++ [s])) :
    t.Stands (here ++ [s]) := by
  intro above habove
  rcases List.prefix_concat_iff.1 habove with rfl | habove
  · exact hs
  · exact h above habove

/-- No walk begins anywhere but in a directory, unless it has nowhere to go. -/
theorem isFloor_of_walk (hwalk : t.walk start parts = .ok place) (hplace : t.IsFloor place) :
    t.IsFloor start := by
  cases parts with
  | nil =>
    cases hwalk
    exact hplace
  | cons s rest =>
    rw [walk] at hwalk
    split at hwalk
    · cases hwalk
    · cases hwalk
    · next hget => exact Or.inl hget
    · next hget => exact Or.inr hget

/-- Somebody can also stand where a walk comes to a directory. -/
theorem Stands.walk (h : t.Stands start) (hwalk : t.walk start parts = .ok place)
    (hplace : t.IsFloor place) : t.Stands place := by
  induction parts generalizing start with
  | nil =>
    cases hwalk
    exact h
  | cons s rest ih =>
    have hup : t.Stands start.dropLast := h.of_prefix (List.dropLast_prefix start)
    rw [FileTree.walk] at hwalk
    split at hwalk
    · cases hwalk
    · cases hwalk
    · split_ifs at hwalk
      · exact ih h hwalk
      · exact ih hup hwalk
      · exact ih (h.concat (isFloor_of_walk hwalk hplace)) hwalk
    · split_ifs at hwalk
      · exact ih h hwalk
      · exact ih hup hwalk

/-- A walk to a file ends with the step from a directory to the file's name. -/
theorem Stands.exists_last_step (h : t.Stands start) {bytes : List UInt8} (hne : parts ≠ [])
    (hslash : ∀ s ∈ parts, '/' ∉ s.toList) (hwalk : t.walk start parts = .ok place)
    (hfile : t.get? place = some (.file bytes)) :
    ∃ before s above, parts = before ++ [s] ∧ IsStep s ∧ t.enter start before = .ok above ∧
      place = above ++ [s] := by
  obtain ⟨before, s, rfl⟩ : ∃ before s, parts = before ++ [s] :=
    ⟨parts.dropLast, parts.getLast hne, (List.dropLast_append_getLast hne).symm⟩
  cases hfront : t.walk start before with
  | error fault =>
    rw [walk_append_of_error hfront] at hwalk
    cases hwalk
  | ok above =>
    rw [walk_append_of_ok hfront] at hwalk
    -- Where somebody stands there is no file, and there is none above.
    have hnot : t.IsFloor above → above ≠ place ∧ above.dropLast ≠ place := by
      intro habove
      have hstands := h.walk hfront habove
      constructor
      · rintro rfl
        rcases hstands.self with hself | hself <;> rw [hself] at hfile <;> cases hfile
      · rintro rfl
        rcases hstands _ (List.dropLast_prefix above) with hself | hself <;>
          rw [hself] at hfile <;> cases hfile
    rw [FileTree.walk] at hwalk
    split at hwalk
    · cases hwalk
    · cases hwalk
    · next hget =>
      split_ifs at hwalk with h0 h1 h2 h3
      · exact absurd (Except.ok.inj hwalk) (hnot (Or.inl hget)).1
      · exact absurd (Except.ok.inj hwalk) (hnot (Or.inl hget)).2
      · have hs : IsStep s := ⟨hslash s (by simp), h1⟩
        have hopen : t.refuses above .search = false := by simpa [hs.ne_empty] using h0
        refine ⟨before, s, above, rfl, hs, ?_, (Except.ok.inj hwalk).symm⟩
        rw [enter, hfront]
        simp [hget, hopen]
    · next hget =>
      split_ifs at hwalk with h1 h2
      · exact absurd (Except.ok.inj hwalk) (hnot (Or.inr hget)).1
      · exact absurd (Except.ok.inj hwalk) (hnot (Or.inr hget)).2

/-! ## Under somebody's feet -/

theorem get?_leave_of_ne {base p : Location} {way : List String}
    (h : ∀ w, w <+: way → w ≠ [] → p ≠ base ++ w) : (t.leave base way).get? p = t.get? p := by
  induction way generalizing t base with
  | nil => rfl
  | cons s below ih =>
    have hfirst : p ≠ base ++ [s] := h [s] (by simp) (by simp)
    rw [leave, ih, get?_set (by simp), if_neg hfirst]
    intro w hw _
    rw [List.append_assoc]
    exact h (s :: w) (by simpa using hw) (by simp)

theorem get?_leave {base : Location} {way w : List String} (hw : w <+: way) (hne : w ≠ []) :
    (t.leave base way).get? (base ++ w) = some .removed := by
  induction way generalizing t base w with
  | nil => exact absurd (List.prefix_nil.1 hw) hne
  | cons s below ih =>
    obtain ⟨q, rest, rfl⟩ := List.exists_cons_of_ne_nil hne
    obtain ⟨rfl, hrest⟩ := List.cons_prefix_cons.1 hw
    rw [leave]
    by_cases hnil : rest = []
    · subst hnil
      rw [get?_leave_of_ne, get?_set (by simp), if_pos rfl]
      intro w _ hw heq
      have hlength := congrArg List.length heq
      simp [hw] at hlength
    · have hmore : ((t.set (base ++ [q]) .removed).leave (base ++ [q]) below).get?
          (base ++ [q] ++ rest) = some .removed := ih hrest hnil
      rwa [List.append_assoc, List.singleton_append] at hmore

theorem prefix_append_cases {above base way : Location} (h : above <+: base ++ way) :
    above <+: base ∨ ∃ w, w <+: way ∧ w ≠ [] ∧ above = base ++ w := by
  rcases List.prefix_or_prefix_of_prefix h (List.prefix_append _ _) with hbase | ⟨w, rfl⟩
  · exact .inl hbase
  · by_cases hnil : w = []
    · rw [hnil, List.append_nil]
      exact .inl (List.prefix_refl base)
    · exact .inr ⟨w, (List.prefix_append_right_inj _).1 h, hnil, rfl⟩

/-- Who stands somewhere goes on standing there, or where the directory is left, whatever is taken
away. -/
theorem Stands.removeAround (h : t.Stands here) (place : Location) :
    (t.removeAround place here).1.Stands (t.removeAround place here).2 := by
  rw [FileTree.removeAround]
  split
  · next hplace =>
    have hbelow : place.dropLast <+: here :=
      (List.dropLast_prefix place).trans (List.isPrefixOf_iff_prefix.1 hplace)
    intro above habove
    rcases prefix_append_cases habove with hbase | ⟨w, hway, hw, rfl⟩
    · -- What lies above the location that is taken away stays as it was.
      by_cases hnil : above = []
      · subst hnil
        exact Or.inl (get?_root _)
      · have hlength := hbase.length_le
        rw [List.length_dropLast] at hlength
        have hpositive := List.length_pos_of_ne_nil hnil
        have hkept : ¬ place <+: above := by
          intro hplace
          have hle := hplace.length_le
          omega
        have hleft : ∀ w, w <+: (here.drop place.dropLast.length).map (· ++ "/") → w ≠ [] →
            above ≠ place.dropLast ++ w := by
          rintro w - hw rfl
          have hw := List.length_pos_of_ne_nil hw
          rw [List.length_append, List.length_dropLast] at hlength
          omega
        apply (h above (hbase.trans hbelow)).of_eq
        show ((t.remove place).leave _ _).get? above = t.get? above
        rw [get?_leave_of_ne hleft, get?_remove t place hnil, if_neg hkept]
    · exact Or.inr (get?_leave hway hw)
  · next hplace =>
    intro above habove
    by_cases hnil : above = []
    · subst hnil
      exact Or.inl (get?_root _)
    · have hkept : ¬ place <+: above := fun hbelow =>
        hplace (List.isPrefixOf_iff_prefix.2 (hbelow.trans habove))
      apply (h above habove).of_eq
      show (t.remove place).get? above = t.get? above
      rw [get?_remove t place hnil, if_neg hkept]

end WorkerEnv.Storage.FileTree
