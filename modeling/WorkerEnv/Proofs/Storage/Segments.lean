/-
# WorkerEnv.Proofs.Storage.Segments -- what joining and completing a path do to its segments

A path is a text, but a walk only sees its segments, and of those only the ones that say something:
its steps. This module carries the operations on texts over to steps. Joining a name adds one step,
and the absolute form puts the steps of the current directory in front.
-/

import WorkerEnv.Storage.Path
import Mathlib.Data.List.DropRight

namespace WorkerEnv.Storage

open Text

/-! ## Segments -/

theorem segments_append_slash (a b : String) :
    segments (a ++ "/" ++ b) = segments a ++ segments b := by
  simp [segments, pieces_append_cons]

theorem segments_of_no_slash {s : String} (h : '/' ∉ s.toList) : segments s = [s] := by
  rw [segments, pieces_of_forall]
  · simp
  · intro c hc hs
    simp only [beq_iff_eq] at hs
    exact h (hs ▸ hc)

theorem segments_empty : segments "" = [""] := segments_of_no_slash (by decide)

/-- A path that ends in a slash says nothing behind it. -/
theorem exists_of_slash_end {path : String} (h : path.toList.getLast? = some '/') :
    ∃ a, path = a ++ "/" ∧ segments path = segments a ++ [""] := by
  obtain ⟨a, ha⟩ := List.getLast?_eq_some_iff.1 h
  have hpath : path = String.ofList a ++ "/" := by
    rw [← String.toList_inj, ha]
    simp
  refine ⟨String.ofList a, hpath, ?_⟩
  rw [hpath, ← String.append_empty (s := String.ofList a ++ "/"), segments_append_slash,
    segments_empty]

theorem no_slash_of_mem_segments {s path : String} (h : s ∈ segments path) : '/' ∉ s.toList := by
  obtain ⟨q, hq, rfl⟩ := List.mem_map.1 h
  intro hs
  exact forall_of_mem_pieces hq '/' (by simpa using hs) (by simp)

theorem segments_ne_nil (path : String) : segments path ≠ [] := by
  simp [segments, pieces_ne_nil]

theorem ofSegments_append {l m : List String} (hl : l ≠ []) (hm : m ≠ []) :
    ofSegments (l ++ m) = ofSegments l ++ "/" ++ ofSegments m :=
  String.intercalate_append_of_ne_nil hl hm

@[simp]
theorem ofSegments_singleton (s : String) : ofSegments [s] = s := String.intercalate_singleton

theorem segments_ofSegments {parts : List String} (hne : parts ≠ [])
    (h : ∀ s ∈ parts, '/' ∉ s.toList) : segments (ofSegments parts) = parts := by
  induction parts with
  | nil => exact absurd rfl hne
  | cons s rest ih =>
    have hs := segments_of_no_slash (h s (by simp))
    by_cases hr : rest = []
    · subst hr
      simpa using hs
    · rw [← List.singleton_append, ofSegments_append (by simp) hr, segments_append_slash,
        ih hr fun q hq => h q (by simp [hq])]
      simp [hs]

theorem ofSegments_segments (path : String) : ofSegments (segments path) = path := by
  -- Gluing is a law about lists of characters, so the paths are taken apart that far.
  have hglue : ∀ qs : List (List Char),
      (ofSegments (qs.map String.ofList)).toList = glue '/' qs := by
    intro qs
    induction qs with
    | nil => rfl
    | cons q qs ih =>
      cases qs with
      | nil => simp [glue]
      | cons r rs =>
        rw [List.map_cons, ← List.singleton_append, ofSegments_append (by simp) (by simp)]
        simp only [ofSegments_singleton, String.toList_append, ih, glue]
        simp
  rw [← String.toList_inj, segments, hglue, glue_pieces]

theorem steps_append_slash (a b : String) : steps (a ++ "/" ++ b) = steps a ++ steps b := by
  simp [steps, segments_append_slash]

theorem not_isTrivial_of_mem_steps {s path : String} (h : s ∈ steps path) : ¬ isTrivial s := by
  simpa using (List.mem_filter.1 h).2

theorem mem_segments_of_mem_steps {s path : String} (h : s ∈ steps path) : s ∈ segments path :=
  (List.mem_filter.1 h).1

/-! ## Where a path starts -/

theorem isAbsolute_iff {path : String} : isAbsolute path ↔ ∃ rest, path = "/" ++ rest := by
  constructor
  · intro h
    rw [isAbsolute, beq_iff_eq] at h
    obtain ⟨rest, hr⟩ := List.head?_eq_some_iff.1 h
    refine ⟨String.ofList rest, ?_⟩
    rw [← String.toList_inj, hr]
    simp
  · rintro ⟨rest, rfl⟩
    simp [isAbsolute]

theorem ne_empty_of_isAbsolute {path : String} (h : isAbsolute path) : path ≠ "" := by
  rintro rfl
  cases h

/-- An absolute path is one with an empty first segment and more segments after it. -/
theorem isAbsolute_iff_segments {path first : String} {rest : List String}
    (h : segments path = first :: rest) : isAbsolute path ↔ first = "" ∧ rest ≠ [] := by
  constructor
  · intro ha
    obtain ⟨tail, rfl⟩ := isAbsolute_iff.1 ha
    have hs := segments_append_slash "" tail
    rw [String.empty_append] at hs
    rw [hs] at h
    obtain ⟨rfl, rfl⟩ := List.cons.inj h
    exact ⟨rfl, segments_ne_nil tail⟩
  · rintro ⟨rfl, hne⟩
    rw [isAbsolute_iff]
    refine ⟨ofSegments rest, ?_⟩
    have hp := ofSegments_segments path
    rw [h, ← List.singleton_append, ofSegments_append (by simp) hne] at hp
    simpa using hp.symm

theorem isAbsolute_append {a b : String} (h : a ≠ "") : isAbsolute (a ++ b) = isAbsolute a := by
  have hne : a.toList ≠ [] := by simpa using h
  rw [isAbsolute, isAbsolute, String.toList_append, List.head?_append_of_ne_nil _ hne]

/-! ## Joining a name -/

/-- A text that can only be read as one step of a path. -/
structure IsStep (s : String) : Prop where
  no_slash : '/' ∉ s.toList
  not_trivial : ¬ isTrivial s

theorem IsStep.ne_empty {s : String} (h : IsStep s) : s ≠ "" := by
  rintro rfl
  exact h.not_trivial (by decide)

theorem IsStep.not_isAbsolute {s : String} (h : IsStep s) : isAbsolute s = false := by
  by_contra ha
  obtain ⟨rest, rfl⟩ := isAbsolute_iff.1 (by simpa using ha)
  exact h.no_slash (by simp)

theorem steps_of_segments {path s : String} {before : List String}
    (h : segments path = before ++ [s]) (hs : IsStep s) :
    steps path = before.filter (!isTrivial ·) ++ [s] := by
  rw [steps, h, List.filter_append]
  simp [hs.not_trivial]

theorem no_slash_of_segments {path s : String} {before : List String}
    (h : segments path = before ++ [s]) : ∀ q ∈ before, '/' ∉ q.toList := by
  intro q hq
  have hmem : q ∈ segments path := by
    rw [h]
    exact List.mem_append_left _ hq
  exact no_slash_of_mem_segments hmem

theorem ne_empty_of_segments {path s : String} {before : List String}
    (h : segments path = before ++ [s]) (hs : IsStep s) : path ≠ "" := by
  rintro rfl
  have hlast := congrArg List.getLast? h
  rw [List.getLast?_concat] at hlast
  exact hs.ne_empty (Option.some.inj hlast).symm

theorem isStep_of_mem_steps {s path : String} (h : s ∈ steps path) : IsStep s :=
  ⟨no_slash_of_mem_segments (mem_segments_of_mem_steps h), not_isTrivial_of_mem_steps h⟩

theorem steps_empty : steps "" = [] := by decide

/-- What a joined path looks like: the name is its last segment, and the steps before it are those
of the base. -/
theorem segments_join (base : String) {name : String} (hn : IsStep name) :
    ∃ before, segments (join base name) = before ++ [name] ∧
      before.filter (!isTrivial ·) = steps base := by
  have hname := segments_of_no_slash hn.no_slash
  -- A base that is empty or ends in a slash takes the name as it is; any other gets one slash.
  by_cases hb : base = ""
  · subst hb
    refine ⟨[], ?_, by rw [steps_empty]; rfl⟩
    simp [join, hn.not_isAbsolute, hname]
  by_cases hl : base.toList.getLast? = some '/'
  · obtain ⟨a, rfl, hsegments⟩ := exists_of_slash_end hl
    refine ⟨segments a, ?_, ?_⟩
    · rw [join, hn.not_isAbsolute, if_neg (by simp), if_pos (Or.inr hl), segments_append_slash,
        hname]
    · rw [steps, hsegments, List.filter_append, ← segments_empty, ← steps, ← steps, steps_empty,
        List.append_nil, steps]
  · refine ⟨segments base, ?_, rfl⟩
    rw [join, hn.not_isAbsolute, if_neg (by simp), if_neg (by simp [hb, hl]),
      segments_append_slash, hname]

theorem steps_join (base : String) {name : String} (hn : IsStep name) :
    steps (join base name) = steps base ++ [name] := by
  obtain ⟨before, hseg, hsteps⟩ := segments_join base hn
  rw [steps_of_segments hseg hn, hsteps]

theorem isAbsolute_join (base : String) {name : String} (hn : IsStep name) :
    isAbsolute (join base name) = isAbsolute base := by
  by_cases hb : base = ""
  · subst hb
    simp [join, hn.not_isAbsolute]
    rfl
  · rw [join, hn.not_isAbsolute, if_neg (by simp)]
    split
    · exact isAbsolute_append hb
    · rw [String.append_assoc]
      exact isAbsolute_append hb

theorem join_ne_empty (base : String) {name : String} (hn : IsStep name) : join base name ≠ "" := by
  intro h
  have hs := steps_join base hn
  rw [h, steps_empty] at hs
  simp at hs

/-! ## Absolute forms -/

theorem segments_locationText {place : Location} (h : ∀ s ∈ place, IsStep s) (hne : place ≠ []) :
    segments (locationText place) = "" :: place := by
  rw [locationText, ← String.empty_append (s := "/"), segments_append_slash, segments_empty,
    segments_ofSegments hne fun s hs => (h s hs).no_slash]
  rfl

theorem steps_locationText {place : Location} (h : ∀ s ∈ place, IsStep s) :
    steps (locationText place) = place := by
  have hfilter : place.filter (!isTrivial ·) = place :=
    List.filter_eq_self.2 fun s hs => by simpa using (h s hs).not_trivial
  rw [locationText, ← String.empty_append (s := "/"), steps_append_slash, steps_empty,
    List.nil_append]
  by_cases hp : place = []
  · subst hp
    exact steps_empty
  · rw [steps, segments_ofSegments hp fun s hs => (h s hs).no_slash, hfilter]

/-- The absolute form of a path starts at the root, and its steps are those of the path, after those
of the current directory if the path is relative. -/
theorem steps_absolute? {here : Location} {path full : String}
    (hh : ¬ isAbsolute path → ∀ s ∈ here, IsStep s) (h : absolute? here path = some full) :
    isAbsolute full ∧
      steps full = (if isAbsolute path then [] else here) ++ steps path := by
  have hsteps : ∀ s ∈ steps path, IsStep s := fun s => isStep_of_mem_steps
  have habs : ∀ place, isAbsolute (locationText place) := fun place =>
    isAbsolute_iff.2 ⟨ofSegments place, rfl⟩
  simp only [absolute?] at h
  split at h
  · simp at h
  split at h
  · next ha =>
    rw [if_pos ha, List.nil_append]
    -- One, two or more slashes in front all come to the same steps.
    split at h <;> cases h
    · exact ⟨habs _, steps_locationText hsteps⟩
    · refine ⟨isAbsolute_iff.2 ⟨_, rfl⟩, ?_⟩
      rw [← String.empty_append (s := "/"), steps_append_slash, steps_empty, List.nil_append,
        steps_locationText hsteps]
    · exact ⟨habs _, steps_locationText hsteps⟩
  · next ha =>
    cases h
    rw [if_neg ha]
    refine ⟨habs _, ?_⟩
    apply steps_locationText
    intro s hs
    rcases List.mem_append.1 hs with hs | hs
    · exact hh ha s hs
    · exact hsteps s hs

end WorkerEnv.Storage
