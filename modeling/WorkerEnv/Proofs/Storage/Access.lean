/-
# WorkerEnv.Proofs.Storage.Access -- what a path to a named file comes to

A path that joins a directory and a name leads to that name in the directory, if the directory can
be entered, and fails like entering the directory otherwise. This is said once for resolving, looking
and writing. It depends on the directory only through its start and its steps, so a path and its
absolute form come to the same, as far as both are usable at all.
-/

import WorkerEnv.Proofs.Storage.Walk
import WorkerEnv.Storage.Provenance

namespace WorkerEnv.Storage

open Text

theorem usable_of_append {a b : String} (h : usable (a ++ b)) : usable a := by
  simp only [usable, decide_eq_true_eq, String.toList_append, byteSize_append,
    List.mem_append, not_or] at h ⊢
  exact ⟨by omega, h.2.1⟩

theorem usable_of_append_right {a b : String} (h : usable (a ++ b)) : usable b := by
  simp only [usable, decide_eq_true_eq, String.toList_append, byteSize_append,
    List.mem_append, not_or] at h ⊢
  exact ⟨by omega, h.2.2⟩

namespace FileTree

variable {t : FileTree} {here : Location} {path directory name : String}

theorem route_of_usable (hne : path ≠ "") (h : usable path) : route path = .ok (segments path) := by
  rw [route, if_neg hne, if_pos h]

theorem route_of_unusable (hne : path ≠ "") (h : ¬ usable path) :
    route path = .error .unusable := by
  rw [route, if_neg hne, if_neg h]

theorem resolve_of_usable (hne : path ≠ "") (h : usable path) :
    t.resolve here path = t.walk (startOf here path) (segments path) := by
  rw [resolve, route_of_usable hne h]
  rfl

theorem find_of_unusable (hne : path ≠ "") (h : ¬ usable path) :
    t.find here path = .error .unusable := by
  rw [find, resolve, route_of_unusable hne h]
  rfl

/-! ## A name in a directory -/

theorem startOf_join (hn : IsName name) :
    startOf here (join directory name) = startOf here directory := by
  rw [startOf, isAbsolute_join directory hn.toIsStep, startOf]

/-- A path to a name resolves to that name in the directory, if the directory can be entered. -/
theorem resolve_join (hn : IsName name) (hu : usable (join directory name)) :
    t.resolve here (join directory name) =
      (t.enter (startOf here directory) (steps directory)).map (· ++ [name]) := by
  obtain ⟨before, hseg, hsteps⟩ := segments_join directory hn.toIsStep
  rw [resolve_of_usable (join_ne_empty directory hn.toIsStep) hu, startOf_join hn, hseg, ← hsteps,
    enter_filter]
  cases he : t.enter (startOf here directory) before with
  | error fault => exact walk_concat_of_enter_error hn.toIsStep (Or.inl hn.not_parent) he
  | ok place =>
    rw [walk_concat_of_enter hn.toIsStep hn.not_parent he, if_pos hn.fits]
    rfl

/-- What is looked up at a path to a name. -/
theorem find_join (hn : IsName name) (hu : usable (join directory name)) :
    t.find here (join directory name) =
      match t.enter (startOf here directory) (steps directory) with
      | .error fault => .error fault
      | .ok place =>
        match t.get? (place ++ [name]) with
        | some entry => .ok (place ++ [name], entry)
        | none => .error .notFound := by
  rw [find, resolve_join hn hu]
  cases t.enter (startOf here directory) (steps directory) with
  | error fault => rfl
  | ok place => rfl

/-- What writing to a path to a name does. -/
theorem write_join (ht : t.WellFormed)
    (hstart : t.get? (startOf here directory) = some .directory) (hn : IsName name)
    (hu : usable (join directory name)) (bytes : List UInt8) :
    t.write here (join directory name) bytes =
      match t.enter (startOf here directory) (steps directory) with
      | .error fault => .error fault
      | .ok place =>
        if t.get? (place ++ [name]) = some .directory then .error .isDirectory
        else if t.admits (place ++ [name]) then .ok (t.set (place ++ [name]) (.file bytes))
        else .error .refused := by
  obtain ⟨before, hseg, hsteps⟩ := segments_join directory hn.toIsStep
  have hslash := no_slash_of_segments hseg
  rw [write, route_of_usable (join_ne_empty directory hn.toIsStep) hu, startOf_join hn, hseg,
    ← hsteps, enter_filter]
  simp only [bind, Except.bind]
  cases he : t.enter (startOf here directory) before with
  | error fault => rw [site_concat_of_enter_error ht hstart hslash he]
  | ok place =>
    rw [site_concat_of_enter hn.toIsStep he, if_neg hn.not_parent, if_pos hn.fits]
    cases hget : t.get? (place ++ [name]) with
    | none => simp [hget, pure, Except.pure]
    | some entry =>
      cases entry with
      | directory => simp [hget]
      | file old => simp [hget, pure, Except.pure]
      | removed => exact absurd hget (ht.ne_removed hn.no_slash)

/-! ## Directories -/

/-- Whether a path that ends in a step leads to a directory. It takes more to enter that directory. -/
theorem isDirectory_concat (ht : t.WellFormed)
    (hstart : t.get? (startOf here path) = some .directory) {before : List String} {s : String}
    (hseg : segments path = before ++ [s]) (hs : IsStep s) (hne : path ≠ "") (hu : usable path) :
    t.isDirectory here path =
      match t.enter (startOf here path) (before.filter (!isTrivial ·)) with
      | .error _ => false
      | .ok place => s = ".." ∨ t.get? (place ++ [s]) = some .directory := by
  have hslash := no_slash_of_segments hseg
  rw [isDirectory, find, resolve_of_usable hne hu, hseg, enter_filter]
  cases he : t.enter (startOf here path) before with
  | error fault =>
    rw [walk_concat_of_enter_error hs (Or.inr fun p => walk_ne_removed ht hstart hslash) he]
    rfl
  | ok place =>
    obtain ⟨hw, hget, hopen⟩ := walk_of_enter he
    by_cases hp : s = ".."
    · have hup := ht.directory_dropLast hget
      have hparent : ¬ isTrivial ".." := by decide
      rw [walk_append_of_ok hw, hp]
      simp [walk, hget, hopen, hparent, hup, bind, Except.bind, pure, Except.pure]
    · rw [walk_concat_of_enter hs hp he]
      by_cases hf : fits s
      · rw [if_pos hf]
        cases hnext : t.get? (place ++ [s]) with
        | none => simp [hnext, hp, bind, Except.bind]
        | some entry =>
          cases entry with
          | directory => simp [hnext, bind, Except.bind, pure, Except.pure]
          | file bytes => simp [hnext, hp, bind, Except.bind, pure, Except.pure]
          | removed => exact absurd hnext (ht.ne_removed hs.no_slash)
      · have hnot : t.get? (place ++ [s]) ≠ some .directory := by
          intro hdir
          exact hf (ht.held hdir (by simp)).2.fits
        rw [if_neg hf]
        simp [hnot, hp, bind, Except.bind]

/-! ## Absolute forms -/

/-- A directory is where its own names lead from the root. -/
theorem WellFormed.leads_root (ht : t.WellFormed) {place : Location}
    (h : t.get? place = some .directory) : t.Leads [] place ∧ landing [] place = place := by
  -- From the end, since what a well-formed tree knows of a place is the directory above it.
  induction place using List.reverseRecOn with
  | nil => exact ⟨by simp [Leads, passed], rfl⟩
  | append_singleton above s ih =>
    obtain ⟨habove, hs⟩ := ht.held h (by simp)
    obtain ⟨hleads, hland⟩ := ih habove
    have hland' : landing [] (above ++ [s]) = above ++ [s] := by
      rw [landing_concat hs.toIsStep hs.not_parent, hland]
    refine ⟨?_, hland'⟩
    intro p hp
    rcases mem_passed_concat.1 hp with hp | rfl
    · exact hleads p hp
    · rw [hland']
      exact h

theorem leads_root_iff (ht : t.WellFormed) (hhere : t.get? here = some .directory)
    {parts : List String} : t.Leads [] (here ++ parts) ↔ t.Leads here parts := by
  obtain ⟨hleads, hland⟩ := ht.leads_root hhere
  constructor
  · intro h p hp
    exact h p (mem_passed_append.2 (Or.inr (by rwa [hland])))
  · intro h p hp
    rcases mem_passed_append.1 hp with hp | hp
    · exact hleads p hp
    · rw [hland] at hp
      exact h p hp

/-- From the root it goes on behind a directory as it does from there, if its own path is open. -/
theorem enter_root (ht : t.WellFormed) (hhere : t.get? here = some .directory)
    (hreached : t.Opens [] here) (parts : List String) :
    t.enter [] (here ++ parts) = t.enter here parts := by
  obtain ⟨hleads, hland⟩ := ht.leads_root hhere
  have henter := enter_of_enters ht ⟨hleads, hreached⟩
  rw [hland] at henter
  exact enter_append henter parts

/-- If the path of a directory is not open, nothing behind it is entered from the root. -/
theorem enter_root_of_shut (ht : t.WellFormed) (hhere : t.get? here = some .directory)
    (hshut : ¬ t.Opens [] here) (parts : List String) :
    t.enter [] (here ++ parts) = .error .refused := by
  have hnames := ht.isName_of_mem hhere
  have hleads := (ht.leads_root hhere).1
  apply enter_append_of_refused
  rcases enter_cases ht (get?_root t) fun s hs => (hnames s hs).no_slash with
    ⟨henters, -⟩ | ⟨fault, hobs, he⟩
  · exact absurd henters.opens hshut
  · -- Everything on the way is there and is a directory, so that only a refusal is left.
    cases fault with
    | refused => exact he
    | notFound =>
      obtain ⟨p, hp, hget⟩ := hobs
      rw [hleads p hp] at hget
      cases hget
    | notDirectory =>
      obtain ⟨p, hp, bytes, hget⟩ := hobs
      rw [hleads p hp] at hget
      cases hget
    | unusable =>
      obtain ⟨s, hs, hfits⟩ := hobs
      exact absurd (hnames s hs).fits hfits
    | isDirectory => exact hobs.elim
    | alreadyThere => exact hobs.elim

/-- The absolute form of a path starts at the root and goes by where the path starts. -/
theorem steps_absoluteIn? (ht : t.WellFormed) {full : String}
    (h : absoluteIn? t here path = some full) :
    t.get? (startOf here path) = some .directory ∧ startOf here full = [] ∧
      steps full = startOf here path ++ steps path := by
  rw [absoluteIn?] at h
  split at h
  · next hstart =>
    have hhere : ¬ isAbsolute path → t.get? here = some .directory := hstart.resolve_left
    have hnames : ¬ isAbsolute path → ∀ s ∈ here, IsStep s := fun ha s hs =>
      (ht.isName_of_mem (hhere ha) s hs).toIsStep
    obtain ⟨hfull, hsteps⟩ := steps_absolute? hnames h
    have hroot : startOf here full = [] := by rw [startOf, if_pos hfull]
    by_cases ha : isAbsolute path
    · rw [if_pos ha] at hsteps
      rw [startOf, if_pos ha]
      exact ⟨rfl, hroot, hsteps⟩
    · rw [if_neg ha] at hsteps
      rw [startOf, if_neg ha]
      exact ⟨hhere ha, hroot, hsteps⟩
  · cases h

/-- A name is found in the absolute form of a directory as it is in the directory, if one can go
there from the root. -/
theorem find_join_absoluteIn? (ht : t.WellFormed) {full : String} (hn : IsName name)
    (h : absoluteIn? t here directory = some full)
    (hreached : t.Opens [] (startOf here directory)) (hu : usable (join full name)) :
    t.find here (join full name) =
      match t.enter (startOf here directory) (steps directory) with
      | .error fault => .error fault
      | .ok place =>
        match t.get? (place ++ [name]) with
        | some entry => .ok (place ++ [name], entry)
        | none => .error .notFound := by
  obtain ⟨hstart, hroot, hsteps⟩ := steps_absoluteIn? ht h
  rw [find_join hn hu, hroot, hsteps, enter_root ht hstart hreached]

/-- If one cannot go there from the root, nothing is found in the absolute form, and not for want of
it. -/
theorem find_join_absoluteIn?_of_shut (ht : t.WellFormed) {full : String} (hn : IsName name)
    (h : absoluteIn? t here directory = some full)
    (hshut : ¬ t.Opens [] (startOf here directory)) (hu : usable (join full name)) :
    t.find here (join full name) = .error .refused := by
  obtain ⟨hstart, hroot, hsteps⟩ := steps_absoluteIn? ht h
  rw [find_join hn hu, hroot, hsteps, enter_root_of_shut ht hstart hshut]

end FileTree

end WorkerEnv.Storage
