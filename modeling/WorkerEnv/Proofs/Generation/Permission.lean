/-
# WorkerEnv.Proofs.Generation.Permission -- when the declaration file may be written

Every declaration file carries the marker, since its first line does. The way to writing is clear if
the nearest file carries the marker or there is none; a nearest file that cannot be read closes it. What
this says about the file at the target itself depends on the directory: where it can be entered, a file
at the target is marked; where part of it is missing, nothing is known.
-/

import WorkerEnv.Generation.Writer
import WorkerEnv.Proofs.Storage.Search

namespace WorkerEnv.Generation

open Storage Storage.FileTree Declaration

variable {t : FileTree} {here : Location} {directory full path : String}

/-- The location of the declaration file of a directory. -/
def targetOf (here : Location) (directory : String) : Location := siteOf here directory fileName

theorem isName_fileName : IsName fileName where
  no_slash := by decide
  not_trivial := by decide
  not_parent := by decide
  fits := by decide

theorem targetOf_ne_nil : targetOf here directory ≠ [] := siteOf_ne_nil

theorem resolve_filePath (ht : t.WellFormed)
    (henters : t.Enters (startOf here directory) (steps directory))
    (hu : usable (filePath directory)) :
    t.resolve here (filePath directory) = .ok (targetOf here directory) := by
  rw [filePath, resolve_join isName_fileName hu, enter_of_enters ht henters]
  rfl

/-! ## The marker -/

theorem carries_iff {bytes : List UInt8} {text : String} :
    carries bytes text ↔ Text.utf8 text <:+: bytes :=
  Text.occursIn_iff

/-- Whatever is declared, and whenever, the file is known as generated. -/
theorem carries_content (d : Definitions) (format : Script.Format) (time : Instant) :
    carries (Text.utf8 (content d format time)) marker := by
  rw [carries_iff]
  refine ⟨Text.utf8 "// ", Text.utf8 (" on " ++ time.text ++ "\n" ++ body d format), ?_⟩
  rw [← Text.utf8_append, ← Text.utf8_append, content, header]
  simp only [String.append_assoc]

/-! ## The way to writing -/

theorem permission_of_error {failure : Failure}
    (h : nearestFile t here directory fileName = .error failure) :
    permission t here directory = .error failure := by
  rw [permission, provenance, h]
  rfl

theorem permission_of_none (h : nearestFile t here directory fileName = .ok none) :
    permission t here directory = .ok () := by
  rw [permission, provenance, h]
  rfl

theorem permission_of_file {bytes : List UInt8}
    (h : nearestFile t here directory fileName = .ok (some path))
    (hread : t.read here path = .ok bytes) :
    permission t here directory =
      if carries bytes marker then .ok () else .error (.foreign path) := by
  simp only [permission, provenance, h, hread, bind, Except.bind, pure, Except.pure]
  split_ifs <;> rfl

/-- A file that is found and cannot be read stops everything, whatever it carries. -/
theorem permission_of_unreadable {fault : Fault}
    (h : nearestFile t here directory fileName = .ok (some path))
    (hread : t.read here path = .error fault) :
    permission t here directory = .error (.inaccessible path) := by
  obtain ⟨place, bytes, hfind⟩ := find_of_nearestFile h
  have hrefused := read_of_find hfind
  rw [hread] at hrefused
  split_ifs at hrefused
  -- The file is there, so the fault is a refusal and not that it has gone.
  cases hrefused
  simp only [permission, provenance, h, hread, bind, Except.bind]

/-- A file that the search comes to first decides. -/
theorem permission_of_looked (h : Looked t here directory fileName full) (ht : t.WellFormed)
    (henters : t.Enters (startOf here directory) (steps directory)) {bytes : List UInt8}
    (hfile : t.get? (targetOf here directory) = some (.file bytes)) :
    permission t here directory =
      if t.refuses (targetOf here directory) .read then .error (.inaccessible (join full fileName))
      else if carries bytes marker then .ok () else .error (.foreign (join full fileName)) := by
  obtain ⟨hnearest, hread⟩ := h.nearestFile ht isName_fileName henters hfile
  rw [← targetOf] at hread
  split_ifs at hread ⊢ with hrefused hmark
  · exact permission_of_unreadable hnearest hread
  · rw [permission_of_file hnearest hread, if_pos hmark]
  · rw [permission_of_file hnearest hread, if_neg hmark]

/-- What is known where the way is clear: a file at the target is marked, unless part of its
directory is missing. -/
structure Clear (t : FileTree) (here : Location) (directory : String) : Prop where
  looked : ∃ full, Looked t here directory fileName full
  marked :
    (t.Enters (startOf here directory) (steps directory) ∧
      ∀ bytes, t.get? (targetOf here directory) = some (.file bytes) → carries bytes marker) ∨
    ∃ p ∈ passed (startOf here directory) (steps directory), t.get? p = none

theorem clear_of_permission (ht : t.WellFormed) (h : permission t here directory = .ok ()) :
    Clear t here directory := by
  cases hfound : nearestFile t here directory fileName with
  | error failure =>
    rw [permission_of_error hfound] at h
    cases h
  | ok found =>
    obtain ⟨full, hlooked, hcase⟩ := looked_of_nearestFile ht isName_fileName hfound
    refine ⟨⟨full, hlooked⟩, ?_⟩
    rcases hcase with henters | hmissing
    · refine Or.inl ⟨henters, ?_⟩
      intro bytes hfile
      -- The search comes to this file first, so it has been judged by its own bytes.
      rw [permission_of_looked hlooked ht henters hfile] at h
      by_contra hmark
      split_ifs at h
    · exact Or.inr hmissing

theorem Clear.start (h : Clear t here directory) (ht : t.WellFormed) :
    t.get? (startOf here directory) = some .directory := by
  obtain ⟨full, hlooked⟩ := h.looked
  exact hlooked.start ht

end WorkerEnv.Generation
