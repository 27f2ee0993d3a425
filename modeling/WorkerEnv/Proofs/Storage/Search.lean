/-
# WorkerEnv.Proofs.Storage.Search -- what the search for the nearest file knows

The search looks first at the name in the directory itself, by the absolute form of its path. If the
search comes to an end, then one can go there from the root, and either the directory can be entered,
and a file of that name in it is the one that is found, or something on the way to the directory is not
there. In the second case the search has said nothing about the file that the path will lead to once
the way has been made. To find a file is not to read it: that can still be refused.
-/

import WorkerEnv.Proofs.Storage.Writing

namespace WorkerEnv.Storage

open FileTree

variable {t t' : FileTree} {here : Location} {directory name path : String}
variable {candidates : List String}

/-! ## Candidates -/

theorem firstFile_error {failure : Failure} (h : firstFile t here candidates = .error failure) :
    ∃ path, failure = .inaccessible path := by
  induction candidates with
  | nil => cases h
  | cons candidate rest ih =>
    rw [firstFile] at h
    split at h
    · cases h
    · exact ih h
    · exact ih h
    · cases h
      exact ⟨candidate, rfl⟩

theorem find_of_firstFile (h : firstFile t here candidates = .ok (some path)) :
    ∃ place bytes, t.find here path = .ok (place, .file bytes) := by
  induction candidates with
  | nil => cases h
  | cons candidate rest ih =>
    rw [firstFile] at h
    split at h
    · next place bytes hfind =>
      cases h
      exact ⟨place, bytes, hfind⟩
    · exact ih h
    · exact ih h
    · cases h

/-- A file that is found is read, or refuses to be. -/
theorem read_of_find {place : Location} {bytes : List UInt8}
    (h : t.find here path = .ok (place, .file bytes)) :
    t.read here path = if t.refuses place .read then .error .refused else .ok bytes := by
  rw [FileTree.read, h]
  rfl

/-! ## The nearest file -/

theorem nearestFile_error {failure : Failure}
    (h : nearestFile t here directory name = .error failure) :
    ∃ path, failure = .inaccessible path := by
  rw [nearestFile] at h
  split at h
  · cases h
    exact ⟨directory, rfl⟩
  · exact firstFile_error h

theorem find_of_nearestFile (h : nearestFile t here directory name = .ok (some path)) :
    ∃ place bytes, t.find here path = .ok (place, .file bytes) := by
  rw [nearestFile] at h
  split at h
  · cases h
  · exact find_of_firstFile h

theorem nearestFile_of_absolute {full : String} (h : absoluteIn? t here directory = some full) :
    nearestFile t here directory name =
      firstFile t here (join full name :: (parents full).map (join · name)) := by
  simp only [nearestFile, h, ancestors, List.map_cons]

/-- The name in the directory, in the absolute form that the search begins with, where one can go from
the root to where the path starts. -/
structure Looked (t : FileTree) (here : Location) (directory name full : String) : Prop where
  absolute : absoluteIn? t here directory = some full
  usable : usable (join full name)
  reached : t.Opens [] (startOf here directory)

theorem Looked.start (h : Looked t here directory name path) (ht : t.WellFormed) :
    t.get? (startOf here directory) = some .directory :=
  (steps_absoluteIn? ht h.absolute).1

theorem Looked.kept (h : Looked t here directory name path)
    (hkept : ∀ {p}, t.get? p = some .directory → t'.get? p = some .directory)
    (hrefusals : t'.refusals = t.refusals) : Looked t' here directory name path := by
  obtain ⟨habs, hu, hreached⟩ := h
  refine ⟨?_, hu, (opens_congr hrefusals).2 hreached⟩
  rw [absoluteIn?] at habs ⊢
  split_ifs at habs with hstart
  rwa [if_pos (hstart.imp_right hkept)]

/-- A file at its site is found, and read unless that is refused. -/
theorem Looked.nearestFile (h : Looked t here directory name path) (ht : t.WellFormed)
    (hn : IsName name) (henters : t.Enters (startOf here directory) (steps directory))
    {bytes : List UInt8} (hfile : t.get? (siteOf here directory name) = some (.file bytes)) :
    nearestFile t here directory name = .ok (some (join path name)) ∧
      t.read here (join path name) =
        if t.refuses (siteOf here directory name) .read then .error .refused else .ok bytes := by
  have hfind := find_join_absoluteIn? ht hn h.absolute h.reached h.usable
  rw [enter_of_enters ht henters] at hfind
  dsimp only at hfind
  rw [← siteOf] at hfind
  simp only [hfile] at hfind
  refine ⟨?_, read_of_find hfind⟩
  rw [nearestFile_of_absolute h.absolute, firstFile, hfind]

/-- A search that comes to an end has looked at the file in the directory, or the directory is not
there yet. -/
theorem looked_of_nearestFile (ht : t.WellFormed) (hn : IsName name) {found : Option String}
    (h : nearestFile t here directory name = .ok found) :
    ∃ full, Looked t here directory name full ∧
      (t.Enters (startOf here directory) (steps directory) ∨
        ∃ p ∈ passed (startOf here directory) (steps directory), t.get? p = none) := by
  cases habs : absoluteIn? t here directory with
  | none =>
    rw [Storage.nearestFile, habs] at h
    cases h
  | some full =>
    have hne : join full name ≠ "" := join_ne_empty full hn.toIsStep
    rw [nearestFile_of_absolute habs, firstFile] at h
    by_cases hu : usable (join full name)
    · by_cases hreached : t.Opens [] (startOf here directory)
      · have hfind := find_join_absoluteIn? ht hn habs hreached hu
        refine ⟨full, ⟨habs, hu, hreached⟩, ?_⟩
        have hstart := (steps_absoluteIn? ht habs).1
        rcases enter_cases ht hstart steps_no_slash with ⟨henters, -⟩ | ⟨fault, hobs, he⟩
        · exact Or.inl henters
        · rw [he] at hfind
          rw [hfind] at h
          -- Only where something is missing the search goes on; any other fault ends it.
          cases fault with
          | notFound => exact Or.inr hobs
          | notDirectory => cases h
          | unusable => cases h
          | refused => cases h
          | isDirectory => exact hobs.elim
          | alreadyThere => exact hobs.elim
      · rw [find_join_absoluteIn?_of_shut ht hn habs hreached hu] at h
        cases h
    · rw [find_of_unusable hne hu] at h
      cases h

end WorkerEnv.Storage
