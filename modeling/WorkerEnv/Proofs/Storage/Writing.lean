/-
# WorkerEnv.Proofs.Storage.Writing -- writing a named file after making its directory

`Writable` says in terms of the tree before the write when it goes through: the path can be used, the
directory can be made and entered, the name is not that of a directory, also not of one that is only
made on the way, and the file may be put there. A write that goes through adds the missing directories
and changes one file; a write that fails may leave directories behind and changes no file.
-/

import WorkerEnv.Proofs.Storage.Making

namespace WorkerEnv.Storage

open FileTree

variable {t : FileTree} {here : Location} {directory name : String}

/-- The location of a name in a directory, whether or not anything is there. -/
def siteOf (here : Location) (directory name : String) : Location :=
  landing (startOf here directory) (steps directory) ++ [name]

theorem siteOf_ne_nil : siteOf here directory name ≠ [] := by simp [siteOf]

/-! ## The directory of a named file -/

theorem ladder_parents_join (directory : String) (hn : IsName name) :
    Ladder (isAbsolute directory) (steps directory) (parents (join directory name)) := by
  obtain ⟨before, hseg, hsteps⟩ := segments_join directory hn.toIsStep
  rw [← hsteps, ← isAbsolute_join directory hn.toIsStep]
  exact ladder_parents hseg hn.toIsStep

/-- The parent of a path to a name, with the ladder that its making goes up. -/
theorem exists_parent_join (directory : String) (hn : IsName name) :
    ∃ above, parent? (join directory name) = some above ∧
      parents (join directory name) = ancestors above := by
  have hladder := ladder_parents_join directory hn
  cases hp : parents (join directory name) with
  | nil => exact absurd hp hladder.ne_nil
  | cons above rest =>
    have hparent : parent? (join directory name) = some above := by rw [parent?, hp, List.head?_cons]
    rw [← hp]
    exact ⟨above, hparent, parents_eq_ancestors hparent⟩

/-- The directories that are made for a named file form a ladder, and their paths can be used as far
as that of the first. -/
theorem ladder_ancestors (hn : IsName name) {above : String}
    (hparent : parent? (join directory name) = some above) (hu : above = "" ∨ usable above) :
    Ladder (isAbsolute directory) (steps directory) (ancestors above) ∧
      ∀ path ∈ ancestors above, path = "" ∨ usable path := by
  obtain ⟨above', hparent', hpaths⟩ := exists_parent_join directory hn
  obtain rfl : above' = above := by
    rw [hparent] at hparent'
    exact (Option.some.inj hparent').symm
  have hladder := ladder_parents_join directory hn
  rw [hpaths] at hladder
  refine ⟨hladder, ?_⟩
  intro path hpath
  rcases List.mem_cons.1 hpath with rfl | hpath
  · exact hu
  · obtain ⟨rest, hrest⟩ := exists_append_of_mem_parents hpath
    rcases hu with rfl | hu
    · have hnil : parents "" = [] := by decide
      rw [hnil] at hpath
      cases hpath
    · rw [hrest] at hu
      exact Or.inr (usable_of_append hu)

/-- Making the directory of a named file, if the operations on files take its path. -/
theorem made_parent (ht : t.WellFormed)
    (hstart : t.get? (startOf here directory) = some .directory) (hn : IsName name)
    {above : String} (hparent : parent? (join directory name) = some above)
    (hu : above = "" ∨ usable above) :
    Made t (startOf here directory) (steps directory) (t.makeDirectories here above) := by
  obtain ⟨hladder, husable⟩ := ladder_ancestors hn hparent hu
  exact made_makeFirst ht hladder husable hstart

theorem usable_parent {above : String} (hparent : parent? (join directory name) = some above)
    (hu : usable (join directory name)) : usable above := by
  obtain ⟨rest, hrest⟩ := exists_append_of_mem_parents (List.mem_of_head? hparent)
  rw [hrest] at hu
  exact usable_of_append hu

theorem makeDirectories_of_enters (ht : t.WellFormed)
    (henters : t.Enters (startOf here directory) (steps directory)) (hn : IsName name)
    (hu : usable (join directory name)) {above : String}
    (hparent : parent? (join directory name) = some above) :
    t.makeDirectories here above = ⟨t, none⟩ := by
  obtain ⟨hladder, husable⟩ := ladder_ancestors hn hparent (Or.inr (usable_parent hparent hu))
  exact makeFirst_of_enters ht hladder husable henters

theorem makeDirectories_of_unusable {path : String} (hne : path ≠ "") (hu : ¬ usable path) :
    t.makeDirectories here path = ⟨t, some .unusable⟩ := by
  have hmake : t.makeDirectory here path = .error .unusable := by
    rw [makeDirectory, route_of_unusable hne hu]
    rfl
  have hdir : ¬ t.isDirectory here path := by
    rw [isDirectory, find_of_unusable hne hu]
    simp
  rw [makeDirectories, ancestors, makeFirst, if_neg hne, hmake]
  simp [ensureDirectory, hmake, hdir]

/-! ## Writing -/

theorem steps_no_slash : ∀ s ∈ steps directory, '/' ∉ s.toList :=
  fun _ hs => (isStep_of_mem_steps hs).no_slash

/-- When a named file can be written in a tree that may still lack its directory. -/
structure Writable (t : FileTree) (here : Location) (directory name : String) : Prop where
  usable : usable (join directory name)
  passable : t.Passable (startOf here directory) (steps directory)
  not_directory : t.get? (siteOf here directory name) ≠ some .directory
  not_passed : siteOf here directory name ∉ passed (startOf here directory) (steps directory)
  admitted : t.admits (siteOf here directory name)

/-- What can come of writing a named file, with what came of making its directory. -/
inductive Wrote (t : FileTree) (here : Location) (directory name : String) (bytes : List UInt8)
    (made : Outcome) : Writing → Prop where
  | done (hcan : Writable t here directory name) (hdone : made.fault? = none)
      (hmade : Made t (startOf here directory) (steps directory) made) :
      Wrote t here directory name bytes made
        ⟨made.tree.set (siteOf here directory name) (.file bytes), none⟩
  | failed (hcannot : ¬ Writable t here directory name) (hwf : made.tree.WellFormed)
      (hgrown : GrownBy (passed (startOf here directory) (steps directory)) t made.tree)
      (path : String) :
      Wrote t here directory name bytes made ⟨made.tree, some (.inaccessible path)⟩

theorem writable_of_enters (ht : t.WellFormed)
    (henters : t.Enters (startOf here directory) (steps directory))
    (hu : usable (join directory name))
    (hsite : t.get? (siteOf here directory name) ≠ some .directory)
    (hadmits : t.admits (siteOf here directory name)) : Writable t here directory name :=
  ⟨hu, passable_of_enters ht henters, hsite, fun hpassed => hsite (henters.leads _ hpassed), hadmits⟩

/-- Making the directory of a file that can be written does not take the file's place. -/
theorem Writable.not_directory_made {made : Outcome} (h : Writable t here directory name)
    (hdone : made.fault? = none) (hmade : Made t (startOf here directory) (steps directory) made) :
    made.tree.get? (siteOf here directory name) ≠ some .directory :=
  fun hdir => ((hmade.directory_iff hdone).1 hdir).elim h.not_directory h.not_passed

theorem writeBytes_of_parent? {path above : String} (h : parent? path = some above)
    (bytes : List UInt8) :
    writeBytes t here path bytes =
      match t.makeDirectories here above with
      | ⟨t', some _⟩ => ⟨t', some (.inaccessible above)⟩
      | ⟨t', none⟩ => writePlain t' here path bytes := by
  unfold writeBytes
  split
  · next hnone =>
    rw [h] at hnone
    cases hnone
  · next above' hsome =>
    rw [h] at hsome
    cases hsome
    rfl

/-- Whether a named file is written whose directory is there. -/
theorem writePlain_join (ht : t.WellFormed)
    (hleads : t.Leads (startOf here directory) (steps directory)) (hn : IsName name)
    (bytes : List UInt8) :
    writePlain t here (join directory name) bytes =
      if usable (join directory name) ∧ t.Opens (startOf here directory) (steps directory) ∧
          t.get? (siteOf here directory name) ≠ some .directory ∧
          t.admits (siteOf here directory name) then
        ⟨t.set (siteOf here directory name) (.file bytes), none⟩
      else ⟨t, some (.inaccessible (join directory name))⟩ := by
  rw [writePlain]
  by_cases hu : usable (join directory name)
  · rw [write_join ht hleads.self hn hu]
    by_cases hopens : t.Opens (startOf here directory) (steps directory)
    · rw [enter_of_enters ht ⟨hleads, hopens⟩]
      dsimp only
      rw [← siteOf]
      by_cases hdir : t.get? (siteOf here directory name) = some .directory
      · simp [hdir]
      · by_cases hadmits : t.admits (siteOf here directory name)
        · simp [hu, hopens, hdir, hadmits]
        · simp [hdir, hadmits]
    · rw [if_neg fun h => hopens h.2.1]
      rcases enter_cases ht hleads.self steps_no_slash with ⟨henters, -⟩ | ⟨fault, -, he⟩
      · exact absurd henters.opens hopens
      · rw [he]
  · rw [write, route_of_unusable (join_ne_empty directory hn.toIsStep) hu, if_neg fun h => hu h.1]
    rfl

theorem wrote_writeBytes (ht : t.WellFormed)
    (hstart : t.get? (startOf here directory) = some .directory) (hn : IsName name)
    (bytes : List UInt8) {above : String} (hparent : parent? (join directory name) = some above) :
    Wrote t here directory name bytes (t.makeDirectories here above)
      (writeBytes t here (join directory name) bytes) := by
  rw [writeBytes_of_parent? hparent]
  by_cases hu : above = "" ∨ usable above
  · have hmade := made_parent ht hstart hn hparent hu
    rcases hmake : t.makeDirectories here above with ⟨t', _ | fault⟩
    · rw [hmake] at hmade
      have hleads := hmade.leads rfl
      have hopens : t'.Opens (startOf here directory) (steps directory) ↔
          t.Opens (startOf here directory) (steps directory) := opens_congr hmade.grown.refusals
      have hdir := hmade.directory_iff rfl (p := siteOf here directory name)
      have hplain := writePlain_join hmade.wellFormed hleads hn bytes
      simp only at hleads hdir hplain ⊢
      rw [hplain]
      split_ifs with hcan
      · obtain ⟨husable, hopen, hnot, hadmits⟩ := hcan
        rw [hopens] at hopen
        rw [hmade.grown.admits hnot] at hadmits
        have hnew := not_or.1 (mt hdir.2 hnot)
        exact .done ⟨husable, hmade.passable rfl hopen, hnew.1, hnew.2, hadmits⟩ rfl hmade
      · refine .failed (fun h => hcan ?_) hmade.wellFormed hmade.grown _
        have hnot := h.not_directory_made rfl hmade
        refine ⟨h.usable, hopens.2 h.passable.opens, hnot, ?_⟩
        rw [hmade.grown.admits hnot]
        exact h.admitted
    · rw [hmake] at hmade
      refine .failed (fun h => ?_) hmade.wellFormed hmade.grown above
      have hnone := hmade.done h.passable
      cases hnone
  · -- The file's path begins with that of the parent and cannot be used either.
    rw [not_or] at hu
    rw [makeDirectories_of_unusable hu.1 hu.2]
    exact .failed (fun h => hu.2 (usable_parent hparent h.usable)) ht (.refl _ t) above

end WorkerEnv.Storage
