/-
# WorkerEnv.Proofs.Storage.Rooted -- a relative path and the same path from the root

`rooted` puts a relative path behind the path of the current directory. Both then lead to the same
places, if one can come to the current directory from the root, and looking comes to the same for both:
resolving a path, reading it, going to the directory of a file, and looking upward. The one difference
that is left is the length: the longer of the two can be too long where the shorter is not.
-/

import WorkerEnv.Proofs.Storage.Search
import WorkerEnv.Proofs.Storage.Standing

namespace WorkerEnv.Storage

open FileTree

variable {t : FileTree} {here place : Location} {path base directory name : String}

/-- A path behind the path of the current directory. -/
def rooted (here : Location) (path : String) : String := join (locationText here) path

/-! ## Joining any relative path -/

theorem join_of_relative (hrel : ¬ isAbsolute path) :
    join base path =
      if base = "" ∨ base.toList.getLast? = some '/' then base ++ path else base ++ "/" ++ path := by
  rw [join, if_neg hrel]

theorem isAbsolute_join_of_relative (hrel : ¬ isAbsolute path) (hbase : base ≠ "") :
    isAbsolute (join base path) = isAbsolute base := by
  rw [join_of_relative hrel]
  split_ifs with hlast
  · exact isAbsolute_append hbase
  · rw [String.append_assoc, isAbsolute_append hbase]

theorem join_ne_empty_of_base (hbase : base ≠ "") (path : String) : join base path ≠ "" := by
  by_cases habs : isAbsolute path
  · rw [join, if_pos habs]
    exact ne_empty_of_isAbsolute habs
  · rw [join_of_relative habs]
    split_ifs <;> simp [hbase]

theorem startOf_join_of_relative (hrel : ¬ isAbsolute path) (hbase : base ≠ "") :
    startOf here (join base path) = startOf here base := by
  rw [startOf, isAbsolute_join_of_relative hrel hbase, startOf]

/-- A walk with nothing said at the end leads where it leads without that. -/
theorem walk_of_walk_concat_empty {parts : List String}
    (h : t.walk here (parts ++ [""]) = .ok place) : t.walk here parts = .ok place := by
  have hempty : isTrivial "" := by decide
  cases hfront : t.walk here parts with
  | error fault =>
    rw [walk_append_of_error hfront] at h
    cases h
  | ok p =>
    rw [walk_append_of_ok hfront] at h
    simp only [walk, hempty, ne_eq, not_true_eq_false, and_false, if_false, if_true] at h
    split at h
    · cases h
    · cases h
    · exact h
    · exact h

/-- A relative path joined to a directory goes on from that directory. -/
theorem walk_join (hbase : base ≠ "") (hrel : ¬ isAbsolute path)
    (h : t.walk (startOf here base) (segments base) = .ok place) :
    t.walk (startOf here (join base path)) (segments (join base path)) =
      t.walk place (segments path) := by
  rw [startOf_join_of_relative hrel hbase, join_of_relative hrel]
  split_ifs with hlast
  · -- The slash is there already: it stands before one more segment, which says nothing.
    obtain ⟨a, rfl, hsegments⟩ := exists_of_slash_end (hlast.resolve_left hbase)
    rw [hsegments] at h
    rw [segments_append_slash, walk_append_of_ok (walk_of_walk_concat_empty h)]
  · rw [segments_append_slash, walk_append_of_ok h]

/-! ## Paths from the root -/

theorem locationText_ne_empty : locationText here ≠ "" := by
  intro h
  have hlist := congrArg String.toList h
  simp [locationText, String.toList_append] at hlist

theorem isAbsolute_locationText : isAbsolute (locationText here) :=
  isAbsolute_iff.2 ⟨ofSegments here, rfl⟩

theorem isAbsolute_rooted (hrel : ¬ isAbsolute path) : isAbsolute (rooted here path) := by
  rw [rooted, isAbsolute_join_of_relative hrel locationText_ne_empty]
  exact isAbsolute_locationText

theorem startOf_rooted (hrel : ¬ isAbsolute path) (place : Location) :
    startOf place (rooted here path) = [] := by
  rw [startOf, if_pos (isAbsolute_rooted hrel)]

theorem rooted_ne_empty (hrel : ¬ isAbsolute path) : rooted here path ≠ "" :=
  ne_empty_of_isAbsolute (isAbsolute_rooted hrel)

/-- One can come to a location from the root: nothing above it refuses to be searched. -/
def FileTree.Reachable (t : FileTree) (here : Location) : Prop :=
  ∀ above, above <+: here → above ≠ here → t.refuses above .search = false

/-- The names of a location lead to it from the root. -/
theorem walk_root (ht : t.WellFormed) (hhere : t.get? here = some .directory)
    (hreach : t.Reachable here) : t.walk [] here = .ok here := by
  cases List.eq_nil_or_concat here with
  | inl hnil =>
    subst hnil
    rfl
  | inr hconcat =>
    obtain ⟨above, s, rfl⟩ := hconcat
    rw [List.concat_eq_append] at hhere hreach ⊢
    obtain ⟨habove, hs⟩ := ht.held hhere (by simp)
    obtain ⟨hleads, hland⟩ := ht.leads_root habove
    have hopens : t.Opens [] above := by
      intro p hp
      have hparent : ".." ∉ above :=
        fun hmem => (ht.isName_of_mem habove ".." hmem).not_parent rfl
      obtain ⟨below, hbelow⟩ := exists_landing_eq_append hp hparent
      rw [hland] at hbelow
      refine hreach p ⟨below ++ [s], by rw [hbelow, List.append_assoc]⟩ ?_
      intro heq
      have hlength := congrArg List.length hbelow
      simp [heq] at hlength
    have henter := enter_of_enters ht ⟨hleads, hopens⟩
    rw [walk_concat_of_enter hs.toIsStep hs.not_parent henter, if_pos hs.fits, hland]

/-- The path of a directory that is there leads to it. -/
theorem walk_locationText (ht : t.WellFormed) (hhere : t.get? here = some .directory)
    (hreach : t.Reachable here) : t.walk [] (segments (locationText here)) = .ok here := by
  have hroot := get?_root t
  by_cases hnil : here = []
  · have hsegments : segments (locationText []) = ["", ""] := by decide
    rw [hnil, hsegments, walk_cons_empty hroot, walk_cons_empty hroot, walk]
  · have hnames : ∀ s ∈ here, IsStep s := fun s hs => (ht.isName_of_mem hhere s hs).toIsStep
    rw [segments_locationText hnames hnil, walk_cons_empty hroot, walk_root ht hhere hreach]

theorem walk_rooted (ht : t.WellFormed) (hhere : t.get? here = some .directory)
    (hreach : t.Reachable here) (hrel : ¬ isAbsolute path) :
    t.walk [] (segments (rooted here path)) = t.walk here (segments path) := by
  have hroot : startOf here (locationText here) = [] := by
    rw [startOf, if_pos isAbsolute_locationText]
  have hwalk : t.walk (startOf here (rooted here path)) (segments (rooted here path)) =
      t.walk here (segments path) := by
    refine walk_join locationText_ne_empty hrel ?_
    rw [hroot]
    exact walk_locationText ht hhere hreach
  rwa [startOf_rooted hrel] at hwalk

/-- Two paths that walk alike resolve alike, unless one of them is too long. -/
theorem resolve_congr {path' : String} (hne : path ≠ "") (hne' : path' ≠ "")
    (hu : usable path' ↔ usable path)
    (hwalk : t.walk (startOf here path') (segments path') =
      t.walk (startOf here path) (segments path)) :
    t.resolve here path' = t.resolve here path := by
  by_cases husable : usable path
  · rw [resolve_of_usable hne husable, resolve_of_usable hne' (hu.2 husable), hwalk]
  · rw [resolve, resolve, route_of_unusable hne husable, route_of_unusable hne' (mt hu.1 husable)]
    rfl

theorem resolve_rooted (ht : t.WellFormed) (hhere : t.get? here = some .directory)
    (hreach : t.Reachable here) (hne : path ≠ "") (hrel : ¬ isAbsolute path)
    (hu : usable (rooted here path) ↔ usable path) :
    t.resolve here (rooted here path) = t.resolve here path := by
  refine resolve_congr hne (rooted_ne_empty hrel) hu ?_
  rw [startOf_rooted hrel, walk_rooted ht hhere hreach hrel, startOf, if_neg hrel]

theorem readText?_congr {here' : Location} {path' : String}
    (h : t.resolve here' path' = t.resolve here path) :
    t.readText? here' path' = t.readText? here path := by
  rw [readText?, readText?, FileTree.read, FileTree.read, FileTree.find, FileTree.find, h]

/-! ## The directory of a file -/

/-- The first path of a ladder has all the steps. -/
theorem Ladder.head {fromRoot : Bool} {parts above : List String}
    (h : Ladder fromRoot parts (path :: above)) :
    steps path = parts ∧ isAbsolute path = fromRoot := by
  cases h with
  | ground hsteps habs => exact ⟨hsteps, habs⟩
  | rung hseg hbelow hs habs hrest =>
    rw [steps_of_segments hseg hs, hbelow]
    exact ⟨rfl, habs⟩

/-- The lexical parent of a path to a file leads to the directory of the file. -/
theorem exists_parent_of_file (hstart : t.Stands (startOf here path)) {bytes : List UInt8}
    (hwalk : t.walk (startOf here path) (segments path) = .ok place)
    (hfile : t.get? place = some (.file bytes)) :
    ∃ above, parent? path = some above ∧ isAbsolute above = isAbsolute path ∧
      t.enter (startOf here path) (steps above) = .ok place.dropLast := by
  have hslash : ∀ s ∈ segments path, '/' ∉ s.toList := fun s => no_slash_of_mem_segments
  obtain ⟨before, s, p, hseg, hs, henter, rfl⟩ :=
    hstart.exists_last_step (segments_ne_nil path) hslash hwalk hfile
  have hladder := ladder_parents hseg hs
  cases hparents : parents path with
  | nil => exact absurd hparents hladder.ne_nil
  | cons above rest =>
    rw [hparents] at hladder
    obtain ⟨hsteps, habs⟩ := hladder.head
    refine ⟨above, by rw [parent?, hparents, List.head?_cons], habs, ?_⟩
    rw [hsteps, enter_filter, henter, List.dropLast_concat]

/-! ## Looking upward -/

/-- The path of a directory other than the root does not end in a slash. -/
theorem getLast?_locationText (hnames : ∀ s ∈ here, IsStep s) (hne : here ≠ []) :
    (locationText here).toList.getLast? ≠ some '/' := by
  intro hlast
  obtain ⟨a, -, hsplit⟩ := exists_of_slash_end hlast
  have hsegments := segments_locationText hnames hne
  -- Its last segment would be empty, and is the name of the directory.
  have hends : here.getLast? = some "" := by
    have hboth := congrArg List.getLast? (hsegments.symm.trans hsplit)
    rwa [List.getLast?_concat, List.getLast?_cons_of_ne_nil hne] at hboth
  exact (hnames "" (List.mem_of_getLast? hends)).ne_empty rfl

/-- A relative path from the root, after its first slash. -/
theorem exists_rooted_eq (hnames : ∀ s ∈ here, IsStep s) (hrel : ¬ isAbsolute path) :
    ∃ rest, rooted here path = "/" ++ rest ∧ ¬ isAbsolute rest ∧ steps rest = here ++ steps path := by
  by_cases hnil : here = []
  · subst hnil
    refine ⟨path, ?_, hrel, rfl⟩
    rw [rooted, join_of_relative hrel, if_pos (by decide)]
    rfl
  · have hsegments := segments_ofSegments hnil fun s hs => (hnames s hs).no_slash
    have hfilter : here.filter (!isTrivial ·) = here :=
      List.filter_eq_self.2 fun s hs => by simpa using (hnames s hs).not_trivial
    have hne : ofSegments here ≠ "" := by
      intro hempty
      rw [hempty, segments_of_no_slash (by decide)] at hsegments
      exact (hnames "" (by rw [← hsegments]; simp)).ne_empty rfl
    refine ⟨ofSegments here ++ "/" ++ path, ?_, ?_, ?_⟩
    · have hlast := getLast?_locationText hnames hnil
      rw [rooted, join_of_relative hrel, if_neg (not_or.2 ⟨locationText_ne_empty, hlast⟩), locationText]
      simp only [String.append_assoc]
    · rw [String.append_assoc, isAbsolute_append hne]
      cases here with
      | nil => exact absurd rfl hnil
      | cons first more =>
        rw [isAbsolute_iff_segments hsegments]
        exact fun h => (hnames first (by simp)).ne_empty h.1
    · rw [steps_append_slash, steps, hsegments, hfilter]

/-- The names on the way to a directory are steps. -/
theorem isStep_of_directory (ht : t.WellFormed) (hhere : t.get? here = some .directory) :
    ∀ s ∈ here, IsStep s :=
  fun s hs => (ht.isName_of_mem hhere s hs).toIsStep

theorem steps_rooted (ht : t.WellFormed) (hhere : t.get? here = some .directory)
    (hrel : ¬ isAbsolute path) : steps (rooted here path) = here ++ steps path := by
  obtain ⟨rest, hrooted, -, hsteps⟩ := exists_rooted_eq (isStep_of_directory ht hhere) hrel
  rw [hrooted, ← String.empty_append (s := "/"), steps_append_slash, steps_empty, List.nil_append,
    hsteps]

theorem absolute?_slash {rest : String} (hrel : ¬ isAbsolute rest) :
    absolute? here ("/" ++ rest) = some (locationText (steps rest)) := by
  have habs : isAbsolute ("/" ++ rest) := isAbsolute_iff.2 ⟨rest, rfl⟩
  have hne : "/" ++ rest ≠ "" := ne_empty_of_isAbsolute habs
  have hsteps : steps ("/" ++ rest) = steps rest := by
    rw [← String.empty_append (s := "/"), steps_append_slash, steps_empty, List.nil_append]
  have hhead : rest.toList.head? ≠ some '/' := by
    simpa [isAbsolute] using hrel
  rw [absolute?, if_neg hne, if_pos habs, hsteps, String.toList_append]
  cases hlist : rest.toList with
  | nil => rfl
  | cons c cs =>
    rw [hlist] at hhead
    have hc : c ≠ '/' := by simpa using hhead
    simp [hc]

/-- The search goes by the absolute form, which is the same for both. -/
theorem nearestFile_rooted (ht : t.WellFormed) (hhere : t.get? here = some .directory)
    (hne : directory ≠ "") (hrel : ¬ isAbsolute directory) (name : String) :
    nearestFile t here (rooted here directory) name = nearestFile t here directory name := by
  obtain ⟨rest, hrooted, hrest, hsteps⟩ := exists_rooted_eq (isStep_of_directory ht hhere) hrel
  have hform : absoluteIn? t here (rooted here directory) = absoluteIn? t here directory := by
    rw [absoluteIn?, absoluteIn?, if_pos (Or.inr hhere), if_pos (Or.inr hhere), hrooted,
      absolute?_slash hrest, hsteps, absolute?, if_neg hne, if_neg hrel]
  obtain ⟨full, hfull⟩ : ∃ full, absoluteIn? t here directory = some full := by
    rw [absoluteIn?, if_pos (Or.inr hhere), absolute?, if_neg hne, if_neg hrel]
    exact ⟨_, rfl⟩
  rw [nearestFile_of_absolute hfull, nearestFile_of_absolute (hform.trans hfull)]

end WorkerEnv.Storage
