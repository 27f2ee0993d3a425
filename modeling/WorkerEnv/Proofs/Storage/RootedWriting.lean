/-
# WorkerEnv.Proofs.Storage.RootedWriting -- making and writing by a relative path and from the root

Directories are made by going up all parents of a path and down again. From the root there are more of
them, but those beyond the current directory are there already, so the two ways make the same
directories in the same order, and stop at the same one. The file that is then written is the same.
-/

import WorkerEnv.Proofs.Storage.Rooted

namespace WorkerEnv.Storage

open FileTree

variable {t : FileTree} {here : Location} {path directory name : String}

/-! ## Making directories -/

section Making

variable {path' s : String} {below : List String}

theorem opens_root_iff (ht : t.WellFormed) (hhere : t.get? here = some .directory)
    (hreached : t.Opens [] here) {parts : List String} :
    t.Opens [] (here ++ parts) ↔ t.Opens here parts := by
  obtain ⟨-, hland⟩ := ht.leads_root hhere
  constructor
  · intro h p hp
    exact h p (mem_passed_append.2 (Or.inr (by rwa [hland])))
  · intro h p hp
    rcases mem_passed_append.1 hp with hp | hp
    · exact hreached p hp
    · rw [hland] at hp
      exact h p hp

/-- Two usable paths that end in one step and lead to one place: the first goes on from the current
directory, the second starts at the root. -/
structure Alongside (here : Location) (below : List String) (s path path' : String) : Prop where
  step : IsStep s
  relative : isAbsolute path = false
  absolute : isAbsolute path' = true
  usable : usable path
  usable' : Storage.usable path'
  ends : ∃ before, segments path = before ++ [s] ∧ before.filter (!isTrivial ·) = below
  ends' : ∃ before, segments path' = before ++ [s] ∧ before.filter (!isTrivial ·) = here ++ below

section Alongside

variable (h : Alongside here below s path path') (ht : t.WellFormed)
  (hhere : t.get? here = some .directory) (hreached : t.Opens [] here)

include h ht hhere hreached

theorem Alongside.makeDirectory : t.makeDirectory here path' = t.makeDirectory here path := by
  obtain ⟨before, hseg, hbefore⟩ := h.ends
  obtain ⟨before', hseg', hbefore'⟩ := h.ends'
  have hstart : startOf here path = here := by simp [startOf, h.relative]
  have hstart' : startOf here path' = [] := by simp [startOf, h.absolute]
  rw [makeDirectory_concat ht (by rw [hstart]; exact hhere) hseg h.step
      (ne_empty_of_segments hseg h.step) h.usable,
    makeDirectory_concat ht (by rw [hstart']; rfl) hseg' h.step
      (ne_empty_of_segments hseg' h.step) h.usable',
    hstart, hstart', hbefore, hbefore', enter_root ht hhere hreached]

theorem Alongside.ensureDirectory : t.ensureDirectory here path' = t.ensureDirectory here path := by
  obtain ⟨before, hseg, hbefore⟩ := h.ends
  obtain ⟨before', hseg', hbefore'⟩ := h.ends'
  have hstart : startOf here path = here := by simp [startOf, h.relative]
  have hstart' : startOf here path' = [] := by simp [startOf, h.absolute]
  rw [ensureDirectory_concat ht (by rw [hstart]; exact hhere) hseg h.step
      (ne_empty_of_segments hseg h.step) h.usable,
    ensureDirectory_concat ht (by rw [hstart']; rfl) hseg' h.step
      (ne_empty_of_segments hseg' h.step) h.usable',
    hstart, hstart', hbefore, hbefore', enter_root ht hhere hreached]

end Alongside

/-- Two ladders to one place, from the current directory and from the root. The second goes on
beyond the first, but there everything has been made already. The induction is on the first. -/
theorem makeFirst_rooted (ht : t.WellFormed) (hhere : t.get? here = some .directory)
    (hreached : t.Opens [] here) {parts paths paths' : List String} (hladder : Ladder false parts paths)
    (hladder' : Ladder true (here ++ parts) paths') (hu : ∀ path ∈ paths, path = "" ∨ usable path)
    (hu' : ∀ path ∈ paths', path = "" ∨ usable path) :
    t.makeFirst here paths' = t.makeFirst here paths := by
  induction hladder generalizing paths' with
  | @ground path above hsteps habs =>
    obtain ⟨hleads, hland⟩ := ht.leads_root hhere
    have hopen : t.refuses here .search = false := by
      have hlast := hreached _ (landing_mem_passed [] here)
      rwa [hland] at hlast
    have hself : t.Enters [] (here ++ []) := by
      rw [List.append_nil]
      exact ⟨hleads, hreached⟩
    rw [makeFirst_of_enters ht (.ground hsteps habs) hu (enters_nil hhere hopen),
      makeFirst_of_enters ht hladder' hu' hself]
  | @rung path s below before above hseg hbelow hs habs hrest ih =>
    rw [← List.append_assoc] at hladder'
    generalize hparts : here ++ below ++ [s] = parts' at hladder'
    cases hladder' with
    | ground hsteps' habs' => simp at hparts
    | @rung path' s' below' before' above' hseg' hbelow' hs' habs' hrest' =>
      obtain ⟨rfl, hlast⟩ := List.append_inj' hparts rfl
      obtain rfl : s = s' := by simpa using hlast
      have hne := ne_empty_of_segments hseg hs
      have hne' := ne_empty_of_segments hseg' hs'
      have halong : Alongside here below s path path' :=
        ⟨hs, habs, habs', (hu path (by simp)).resolve_left hne,
          (hu' path' (by simp)).resolve_left hne', ⟨before, hseg, hbelow⟩, ⟨before', hseg', hbelow'⟩⟩
      have habove : ∀ p ∈ above, p = "" ∨ usable p := fun p hp => hu p (by simp [hp])
      have hfirst := ih hrest' habove fun p hp => hu' p (by simp [hp])
      have hmade := made_makeFirst ht hrest habove hhere
      rw [makeFirst, if_neg hne', makeFirst, if_neg hne, halong.makeDirectory ht hhere hreached,
        halong.ensureDirectory ht hhere hreached, hfirst]
      rcases hmake : t.makeFirst here above with ⟨made, _ | fault⟩
      · rw [hmake] at hmade
        simp only [halong.ensureDirectory hmade.wellFormed (hmade.grown.kept hhere)
          ((opens_congr hmade.grown.refusals).2 hreached)]
      · rfl

end Making

/-! ## Writing -/

/-- Two failures are of one kind, and about the same file if it is a foreign one. -/
inductive Failure.Alike : Failure → Failure → Prop where
  | foreign (path : String) : Alike (.foreign path) (.foreign path)
  | inaccessible (path path' : String) : Alike (.inaccessible path) (.inaccessible path')

/-- Two writings come to the same tree, and both fail or none does. -/
inductive SameWriting : Writing → Writing → Prop where
  | done (t : FileTree) : SameWriting ⟨t, none⟩ ⟨t, none⟩
  | failed (t : FileTree) (path path' : String) :
      SameWriting ⟨t, some (.inaccessible path)⟩ ⟨t, some (.inaccessible path')⟩

section Writing

variable {above above' : String}

/-- The two paths of a file in a directory, from the current directory and from the root: each of
them and its parent is usable in both forms or in none. -/
structure Measured (here : Location) (directory name : String) : Prop where
  target : usable (join (rooted here directory) name) ↔ usable (join directory name)
  parent : ∀ above above', parent? (join directory name) = some above →
    parent? (join (rooted here directory) name) = some above' → (usable above' ↔ usable above)

theorem siteOf_rooted (ht : t.WellFormed) (hhere : t.get? here = some .directory)
    (hrel : ¬ isAbsolute directory) :
    siteOf here (rooted here directory) name = siteOf here directory name := by
  rw [siteOf, siteOf, startOf_rooted hrel, steps_rooted ht hhere hrel, landing_append,
    (ht.leads_root hhere).2, startOf, if_neg hrel]

theorem makeDirectories_rooted (ht : t.WellFormed) (hhere : t.get? here = some .directory)
    (hreached : t.Opens [] here) (hrel : ¬ isAbsolute directory) (hn : IsName name)
    (hparent : parent? (join directory name) = some above)
    (hparent' : parent? (join (rooted here directory) name) = some above')
    (hu : usable above' ↔ usable above) :
    t.makeDirectories here above' = t.makeDirectories here above := by
  have hempty : usable "" := by decide
  by_cases habove : usable above
  · obtain ⟨hladder, hpaths⟩ := ladder_ancestors hn hparent (Or.inr habove)
    obtain ⟨hladder', hpaths'⟩ := ladder_ancestors hn hparent' (Or.inr (hu.2 habove))
    rw [Bool.eq_false_iff.2 hrel] at hladder
    rw [isAbsolute_rooted hrel, steps_rooted ht hhere hrel] at hladder'
    exact makeFirst_rooted ht hhere hreached hladder hladder' hpaths hpaths'
  · have habove' := mt hu.1 habove
    rw [makeDirectories_of_unusable (by rintro rfl; exact habove hempty) habove,
      makeDirectories_of_unusable (by rintro rfl; exact habove' hempty) habove']

theorem writePlain_rooted (ht : t.WellFormed) (hhere : t.get? here = some .directory)
    (hreached : t.Opens [] here) (hrel : ¬ isAbsolute directory) (hn : IsName name)
    (hu : usable (join (rooted here directory) name) ↔ usable (join directory name))
    (hleads : t.Leads here (steps directory)) (bytes : List UInt8) :
    SameWriting (writePlain t here (join directory name) bytes)
      (writePlain t here (join (rooted here directory) name) bytes) := by
  have hstart : startOf here directory = here := by rw [startOf, if_neg hrel]
  rw [writePlain_join ht (by rwa [hstart]) hn,
    writePlain_join ht
      (by rwa [startOf_rooted hrel, steps_rooted ht hhere hrel, leads_root_iff ht hhere]) hn,
    siteOf_rooted ht hhere hrel, startOf_rooted hrel, steps_rooted ht hhere hrel, hstart]
  simp only [hu, opens_root_iff ht hhere hreached]
  split_ifs
  · exact .done _
  · exact .failed _ _ _

/-- A file is written through a path as it is through the path from the root. -/
theorem writeBytes_rooted (ht : t.WellFormed) (hhere : t.get? here = some .directory)
    (hreached : t.Opens [] here) (hrel : ¬ isAbsolute directory) (hn : IsName name) (hu : Measured here directory name)
    (bytes : List UInt8) :
    SameWriting (writeBytes t here (join directory name) bytes)
      (writeBytes t here (join (rooted here directory) name) bytes) := by
  have hstart : startOf here directory = here := by rw [startOf, if_neg hrel]
  obtain ⟨above, hparent, -⟩ := exists_parent_join directory hn
  obtain ⟨above', hparent', -⟩ := exists_parent_join (rooted here directory) hn
  have habove := hu.parent above above' hparent hparent'
  rw [writeBytes_of_parent? hparent, writeBytes_of_parent? hparent',
    makeDirectories_rooted ht hhere hreached hrel hn hparent hparent' habove]
  by_cases husable : usable above
  · have hmade := made_parent ht (by rw [hstart]; exact hhere) hn hparent (Or.inr husable)
    rw [hstart] at hmade
    rcases hmake : t.makeDirectories here above with ⟨made, _ | fault⟩
    · rw [hmake] at hmade
      exact writePlain_rooted hmade.wellFormed (hmade.grown.kept hhere)
        ((opens_congr hmade.grown.refusals).2 hreached) hrel hn hu.target (hmade.leads rfl) bytes
    · exact .failed _ _ _
  · have hne : above ≠ "" := by
      rintro rfl
      exact husable (by decide)
    rw [makeDirectories_of_unusable hne husable]
    exact .failed _ _ _

end Writing

end WorkerEnv.Storage
