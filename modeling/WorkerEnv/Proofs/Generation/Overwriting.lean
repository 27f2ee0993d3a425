/-
# WorkerEnv.Proofs.Generation.Overwriting -- how a file that was not generated is lost

The search for the nearest file looks where the path leads now; the writer looks where it leads once
the directory has been made. Both are the same place unless part of the way is missing and a step to
the parent leads out of the missing part. `Call.Overwrites` says exactly when such a call writes over
a file that lacks the marker, and nothing else does.
-/

import WorkerEnv.Proofs.Generation.History

namespace WorkerEnv.Generation

open Storage Storage.FileTree Declaration

variable {t : FileTree} {c : Call} {place : Location} {bytes : List UInt8}

/-- The call writes over a file that was not generated: part of the way to the file is missing, so
that the search does not see it, and can be made, and the file does not refuse to be written over. -/
structure Call.Overwrites (c : Call) (t : FileTree) (place : Location) : Prop where
  nonempty : ¬ c.definitions.isEmpty
  permitted : permission t c.here c.directory = .ok ()
  usable : usable c.target
  passable : t.Passable (startOf c.here c.directory) (steps c.directory)
  missing : ∃ p ∈ passed (startOf c.here c.directory) (steps c.directory), t.get? p = none
  site : c.site = place
  foreign : ∃ bytes, t.get? place = some (.file bytes) ∧ ¬ carries bytes marker
  granted : t.refuses place .write = false

theorem Call.Overwrites.writable (h : c.Overwrites t place) :
    Writable t c.here c.directory fileName := by
  obtain ⟨bytes, hfile, -⟩ := h.foreign
  have hgranted := h.granted
  rw [← h.site] at hfile hgranted
  refine ⟨h.usable, h.passable, ?_, ?_, ?_⟩
  · intro hdir
    change t.get? c.site = some .directory at hdir
    rw [hfile] at hdir
    cases hdir
  · intro hpassed
    exact h.passable.no_file _ hpassed bytes hfile
  · change t.admits c.site
    rw [admits_of_get? hfile, hgranted]
    rfl

/-- Where the writer can write and has something to write, it does. -/
theorem Came.hasWritten {a : Attempt}
    (h : Came t c.here c.directory c.definitions c.format c.time a)
    (hperm : permission t c.here c.directory = .ok ()) (hsome : ¬ c.definitions.isEmpty)
    (hcan : Writable t c.here c.directory fileName) : a.hasWritten := by
  cases h with
  | refused hrefused =>
    rw [hperm] at hrefused
    cases hrefused
  | untouched hperm hempty => exact absurd hempty hsome
  | written hperm hsome hparent hcan hdone hmade => rfl
  | failed hperm hsome hcannot hwf hgrown path => exact absurd hcan hcannot

/-- A call that writes over a file without the marker has not seen it. -/
theorem Came.overwrites {a : Attempt} (ht : t.WellFormed)
    (h : Came t c.here c.directory c.definitions c.format c.time a) (hwritten : a.hasWritten)
    (hfile : t.get? c.site = some (.file bytes)) (hforeign : ¬ carries bytes marker) :
    c.Overwrites t c.site := by
  obtain ⟨hperm, hsome, hcan, -⟩ := h.of_hasWritten hwritten
  refine ⟨hsome, hperm, hcan.usable, hcan.passable, ?_, rfl, ⟨bytes, hfile, hforeign⟩,
    ht.refuses_of_admits hcan.admitted⟩
  -- Had the search been able to enter the directory, it would have seen the file.
  rcases (clear_of_permission ht hperm).marked with ⟨-, hmarked⟩ | hmissing
  · exact absurd (hmarked bytes hfile) hforeign
  · exact hmissing

/-- A file without the marker survives a call exactly if the call does not overwrite it. -/
theorem attempt_keeps_iff (ht : t.WellFormed) (hfile : t.get? place = some (.file bytes))
    (hforeign : ¬ carries bytes marker) :
    (c.attempt t).tree.get? place = some (.file bytes) ↔ ¬ c.Overwrites t place := by
  have hcame := came_attempt ht c
  constructor
  · intro hkept hover
    have hcontent := hcame.content (hcame.hasWritten hover.permitted hover.nonempty hover.writable)
    have hsite : targetOf c.here c.directory = place := hover.site
    rw [hsite, hkept] at hcontent
    cases hcontent
    exact hforeign (carries_content _ _ _)
  · intro hnot
    apply hcame.file_kept hfile
    intro hwritten hsite
    have hsite' : place = c.site := hsite
    rw [hsite'] at hfile hnot
    exact hnot (hcame.overwrites ht hwritten hfile hforeign)

/-- A path that leads out of a missing directory has to step to a parent. -/
theorem Call.Overwrites.parent_mem (ht : t.WellFormed) (h : c.Overwrites t place) :
    ".." ∈ steps c.directory := by
  -- Without such steps all that is passed lies above the file, so nothing of it can be missing.
  by_contra hparent
  obtain ⟨p, hp, hmissing⟩ := h.missing
  obtain ⟨bytes, hfile, -⟩ := h.foreign
  obtain ⟨below, hbelow⟩ := exists_landing_eq_append hp hparent
  rw [← h.site] at hfile
  have hland : t.get? (landing (startOf c.here c.directory) (steps c.directory)) =
      some .directory := (ht.held hfile (by simp)).1
  rw [hbelow] at hland
  rw [ht.directory_of_append hland] at hmissing
  cases hmissing

end WorkerEnv.Generation
