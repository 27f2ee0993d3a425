/-
# WorkerEnv.Proofs.Generation.Attempt -- what one attempt to write comes to

`Came` lists what can come of an attempt, with everything that is known in each case; all later
results about attempts go by its cases. The full account of one attempt, in terms of what the search
for the nearest file finds and of what making directories does, follows from it.
-/

import WorkerEnv.Proofs.Generation.Permission

namespace WorkerEnv.Generation

open Storage Storage.FileTree Declaration

variable {t : FileTree} {here : Location} {directory : String} {d : Definitions}
variable {format : Script.Format} {time : Instant} {a : Attempt}

/-- What comes of an attempt to write. -/
inductive Came (t : FileTree) (here : Location) (directory : String) (d : Definitions)
    (format : Script.Format) (time : Instant) : Attempt → Prop where
  /-- The way was not clear. -/
  | refused {failure : Failure} (h : permission t here directory = .error failure) :
      Came t here directory d format time ⟨t, .error failure, []⟩
  /-- There was nothing to declare. -/
  | untouched (hperm : permission t here directory = .ok ()) (hempty : d.isEmpty) :
      Came t here directory d format time ⟨t, .ok .untouched, []⟩
  /-- The file was written, after its directory had been made. -/
  | written (hperm : permission t here directory = .ok ()) (hsome : ¬ d.isEmpty)
      {above : String} (hparent : parent? (filePath directory) = some above)
      (hcan : Writable t here directory fileName)
      (hdone : (t.makeDirectories here above).fault? = none)
      (hmade : Made t (startOf here directory) (steps directory) (t.makeDirectories here above)) :
      Came t here directory d format time
        ⟨(t.makeDirectories here above).tree.set (targetOf here directory)
            (.file (Text.utf8 (content d format time))),
          .ok (.written (filePath directory)), [body d format]⟩
  /-- The file could not be written, but part of its directory may have been made. -/
  | failed (hperm : permission t here directory = .ok ()) (hsome : ¬ d.isEmpty)
      {made : FileTree} (hcannot : ¬ Writable t here directory fileName) (hwf : made.WellFormed)
      (hgrown : GrownBy (passed (startOf here directory) (steps directory)) t made)
      (path : String) :
      Came t here directory d format time ⟨made, .error (.inaccessible path), []⟩

theorem came_write (ht : t.WellFormed) (here : Location) (directory : String) (d : Definitions)
    (format : Script.Format) (time : Instant) :
    Came t here directory d format time (write t here directory d format time) := by
  rw [write]
  cases hperm : permission t here directory with
  | error failure => exact .refused hperm
  | ok clear =>
    show Came t here directory d format time (if d.isEmpty then _ else _)
    split_ifs with hempty
    · exact .untouched hperm hempty
    · obtain ⟨above, hparent, -⟩ := exists_parent_join directory isName_fileName
      have hstart := (clear_of_permission ht hperm).start ht
      have hwrote := wrote_writeBytes ht hstart isName_fileName
        (Text.utf8 (content d format time)) hparent
      rw [writeText]
      change Wrote t here directory fileName _ _ (writeBytes t here (filePath directory) _) at hwrote
      generalize writeBytes t here (filePath directory) _ = w at hwrote ⊢
      cases hwrote with
      | done hcan hdone hmade => exact .written hperm hempty hparent hcan hdone hmade
      | failed hcannot hwf hgrown path => exact .failed hperm hempty hcannot hwf hgrown path

/-! ## The tree afterwards -/

/-- Putting the file into its directory leaves the way to it as it is. -/
theorem enters_set_target {made : FileTree.Outcome} (hcan : Writable t here directory fileName)
    (hdone : made.fault? = none) (hmade : Made t (startOf here directory) (steps directory) made)
    (entry : Entry) :
    (made.tree.set (targetOf here directory) entry).Enters (startOf here directory)
      (steps directory) := by
  constructor
  · intro p hp
    rw [get?_set targetOf_ne_nil, if_neg]
    · exact hmade.leads hdone p hp
    · rintro rfl
      exact hcan.not_passed hp
  · rw [opens_congr ((refusals_set _ _ entry).trans hmade.grown.refusals)]
    exact hcan.passable.opens

theorem wellFormed_set_target {made : FileTree.Outcome} (hcan : Writable t here directory fileName)
    (hdone : made.fault? = none) (hmade : Made t (startOf here directory) (steps directory) made)
    (bytes : List UInt8) :
    (made.tree.set (targetOf here directory) (.file bytes)).WellFormed :=
  hmade.wellFormed.set (hmade.leads hdone).at_landing isName_fileName
    (hcan.not_directory_made hdone hmade) (by simp)

theorem Came.wellFormed (h : Came t here directory d format time a) (ht : t.WellFormed) :
    a.tree.WellFormed := by
  cases h with
  | refused hperm => exact ht
  | untouched hperm hempty => exact ht
  | written hperm hsome hparent hcan hdone hmade =>
    exact wellFormed_set_target hcan hdone hmade _
  | failed hperm hsome hcannot hwf hgrown path => exact hwf

/-- No attempt gives or takes a right. -/
theorem Came.refusals (h : Came t here directory d format time a) :
    a.tree.refusals = t.refusals := by
  cases h with
  | refused hperm => rfl
  | untouched hperm hempty => rfl
  | written hperm hsome hparent hcan hdone hmade =>
    exact (refusals_set _ _ _).trans hmade.grown.refusals
  | failed hperm hsome hcannot hwf hgrown path => exact hgrown.refusals

/-- Whether an attempt has written. -/
def Attempt.hasWritten (a : Attempt) : Bool :=
  match a.result with
  | .ok (.written _) => true
  | _ => false

theorem Came.directory_kept (h : Came t here directory d format time a) {p : Location}
    (hdir : t.get? p = some .directory) : a.tree.get? p = some .directory := by
  cases h with
  | refused hperm => exact hdir
  | untouched hperm hempty => exact hdir
  | written hperm hsome hparent hcan hdone hmade =>
    have hkept := hmade.grown.kept hdir
    rw [get?_set targetOf_ne_nil, if_neg]
    · exact hkept
    · rintro rfl
      exact hcan.not_directory_made hdone hmade hkept
  | failed hperm hsome hcannot hwf hgrown path => exact hgrown.kept hdir

/-- A file stays as it is, unless the attempt writes it. -/
theorem Came.file_kept (h : Came t here directory d format time a) {p : Location}
    {bytes : List UInt8} (hfile : t.get? p = some (.file bytes))
    (hother : a.hasWritten → p ≠ targetOf here directory) : a.tree.get? p = some (.file bytes) := by
  cases h with
  | refused hperm => exact hfile
  | untouched hperm hempty => exact hfile
  | written hperm hsome hparent hcan hdone hmade =>
    rw [get?_set targetOf_ne_nil, if_neg (hother rfl)]
    exact hmade.grown.kept hfile
  | failed hperm hsome hcannot hwf hgrown path => exact hgrown.kept hfile

/-- Everything that is known of an attempt that has written. -/
theorem Came.of_hasWritten (h : Came t here directory d format time a)
    (hwritten : a.hasWritten) :
    permission t here directory = .ok () ∧ ¬ d.isEmpty ∧ Writable t here directory fileName ∧
      ∃ made, made.fault? = none ∧
        Made t (startOf here directory) (steps directory) made ∧
        a.tree = made.tree.set (targetOf here directory)
          (.file (Text.utf8 (Declaration.content d format time))) := by
  cases h with
  | refused hperm => cases hwritten
  | untouched hperm hempty => cases hwritten
  | written hperm hsome hparent hcan hdone hmade => exact ⟨hperm, hsome, hcan, _, hdone, hmade, rfl⟩
  | failed hperm hsome hcannot hwf hgrown path => cases hwritten

theorem Came.content (h : Came t here directory d format time a) (hwritten : a.hasWritten) :
    a.tree.get? (targetOf here directory) =
      some (.file (Text.utf8 (Declaration.content d format time))) := by
  obtain ⟨-, -, -, made, -, -, htree⟩ := h.of_hasWritten hwritten
  rw [htree, get?_set targetOf_ne_nil, if_pos rfl]

/-- Putting the same content there again changes nothing. -/
theorem Came.set_content (h : Came t here directory d format time a) (hwritten : a.hasWritten) :
    a.tree.set (targetOf here directory)
      (.file (Text.utf8 (Declaration.content d format time))) = a.tree := by
  obtain ⟨-, -, -, made, -, -, htree⟩ := h.of_hasWritten hwritten
  rw [htree, set_set]

/-! ## The account of one attempt -/

/-- A text stands in the declaration file of a directory, which was made for it where it was
missing. All else is as before, rights included. -/
structure Placed (t : FileTree) (here : Location) (directory text : String) (t' : FileTree) :
    Prop where
  resolves : t'.resolve here (filePath directory) = .ok (targetOf here directory)
  content : t'.get? (targetOf here directory) = some (.file (Text.utf8 text))
  files {p : Location} {bytes : List UInt8} :
    p ≠ targetOf here directory → (t'.get? p = some (.file bytes) ↔ t.get? p = some (.file bytes))
  directories {p : Location} :
    t'.get? p = some .directory ↔
      t.get? p = some .directory ∨ p ∈ passed (startOf here directory) (steps directory)
  refusals : t'.refusals = t.refusals
  made : ∃ above, parent? (filePath directory) = some above ∧
    (t.makeDirectories here above).fault? = none ∧
    ∀ p, p ≠ targetOf here directory → t'.get? p = (t.makeDirectories here above).tree.get? p

theorem placed_set {above text : String}
    (hparent : parent? (filePath directory) = some above)
    (hcan : Writable t here directory fileName)
    (hdone : (t.makeDirectories here above).fault? = none)
    (hmade : Made t (startOf here directory) (steps directory) (t.makeDirectories here above)) :
    Placed t here directory text ((t.makeDirectories here above).tree.set (targetOf here directory)
      (.file (Text.utf8 text))) := by
  -- Away from the target the tree is the one in which the directory has been made.
  have henters := enters_set_target hcan hdone hmade (.file (Text.utf8 text))
  have hwf := wellFormed_set_target hcan hdone hmade (Text.utf8 text)
  have hne : targetOf here directory ≠ [] := targetOf_ne_nil
  have hget := get?_set hne (t.makeDirectories here above).tree (.file (Text.utf8 text))
  constructor
  · exact resolve_filePath hwf henters hcan.usable
  · rw [hget, if_pos rfl]
  · intro p bytes hne
    rw [hget, if_neg hne]
    exact hmade.grown.file_iff
  · intro p
    rw [hget, ← hmade.directory_iff hdone]
    split_ifs with heq
    · rw [heq]
      refine iff_of_false (by simp) ?_
      exact hcan.not_directory_made hdone hmade
    · rfl
  · exact (refusals_set _ _ _).trans hmade.grown.refusals
  · refine ⟨above, hparent, hdone, ?_⟩
    intro p hne
    rw [hget, if_neg hne]

/-- A text that stands in the declaration file is what its path leads to. -/
theorem Placed.find {text : String} {t' : FileTree} (h : Placed t here directory text t') :
    t'.find here (filePath directory) =
      .ok (targetOf here directory, .file (Text.utf8 text)) := by
  simp only [FileTree.find, h.resolves, bind, Except.bind, h.content]
  rfl

theorem Came.of_written (h : Came t here directory d format time a) {path : String}
    (hwritten : a.result = .ok (.written path)) :
    path = filePath directory ∧ a.told = [body d format] ∧
      Placed t here directory (Declaration.content d format time) a.tree := by
  cases h with
  | refused hperm => cases hwritten
  | untouched hperm hempty => cases hwritten
  | written hperm hsome hparent hcan hdone hmade =>
    cases hwritten
    exact ⟨rfl, rfl, placed_set hparent hcan hdone hmade⟩
  | failed hperm hsome hcannot hwf hgrown path => cases hwritten

/-- What an attempt comes to where the nearest file does not forbid it. Without definitions nothing
happens. With some, the file is written exactly if that is possible, and its body is told to the log;
else no file changes and nothing is told. -/
def Proceeds (t : FileTree) (here : Location) (directory : String) (d : Definitions)
    (format : Script.Format) (time : Instant) (a : Attempt) : Prop :=
  if d.isEmpty then a = ⟨t, .ok .untouched, []⟩
  else
    (Writable t here directory fileName ∧ a.result = .ok (.written (filePath directory)) ∧
      a.told = [body d format] ∧
      Placed t here directory (header time ++ "\n" ++ body d format) a.tree) ∨
    (¬ Writable t here directory fileName ∧ (∃ path, a.result = .error (.inaccessible path)) ∧
      a.told = [] ∧ GrownBy (passed (startOf here directory) (steps directory)) t a.tree)

theorem Came.proceeds (h : Came t here directory d format time a)
    (hperm : permission t here directory = .ok ()) :
    Proceeds t here directory d format time a := by
  rw [Proceeds]
  cases h with
  | refused hrefused =>
    rw [hperm] at hrefused
    cases hrefused
  | untouched hperm hempty => rw [if_pos hempty]
  | written hperm hsome hparent hcan hdone hmade =>
    rw [if_neg hsome]
    exact Or.inl ⟨hcan, rfl, rfl, placed_set hparent hcan hdone hmade⟩
  | failed hperm hsome hcannot hwf hgrown path =>
    rw [if_neg hsome]
    exact Or.inr ⟨hcannot, ⟨path, rfl⟩, rfl, hgrown⟩

theorem write_of_error {failure : Failure} (h : permission t here directory = .error failure) :
    write t here directory d format time = ⟨t, .error failure, []⟩ := by
  rw [write, h]

/-- The full account of one attempt, by what the search for the nearest file finds. -/
theorem write_account (ht : t.WellFormed) (here : Location) (directory : String) (d : Definitions)
    (format : Script.Format) (time : Instant) :
    match nearestFile t here directory fileName with
    | .error failure =>
      write t here directory d format time = ⟨t, .error failure, []⟩ ∧
        ∃ path, failure = .inaccessible path
    | .ok none => Proceeds t here directory d format time (write t here directory d format time)
    | .ok (some path) =>
      match t.read here path with
      | .error _ => write t here directory d format time = ⟨t, .error (.inaccessible path), []⟩
      | .ok bytes =>
        (Text.utf8 marker <:+: bytes →
          Proceeds t here directory d format time (write t here directory d format time)) ∧
        (¬ Text.utf8 marker <:+: bytes →
          write t here directory d format time = ⟨t, .error (.foreign path), []⟩) := by
  have hcame := came_write ht here directory d format time
  split
  · next failure hnearest =>
    exact ⟨write_of_error (permission_of_error hnearest), nearestFile_error hnearest⟩
  · next hnearest => exact hcame.proceeds (permission_of_none hnearest)
  · next path hnearest =>
    split
    · next fault hread => exact write_of_error (permission_of_unreadable hnearest hread)
    · next bytes hread =>
      have hperm := permission_of_file hnearest hread
      refine ⟨?_, ?_⟩ <;> rw [← carries_iff]
      · intro hmark
        rw [if_pos hmark] at hperm
        exact hcame.proceeds hperm
      · intro hmark
        rw [if_neg hmark] at hperm
        exact write_of_error hperm

/-- A tree with a generated file in one directory, somebody's own in another, a generated one that
refuses to be read in the third, and a fourth directory that refuses to be searched. -/
def fourDirectories : FileTree where
  entries := [
    (["ours"], .directory),
    (["ours", fileName], .file (Text.utf8 "// Generated by workertypes\n")),
    (["theirs"], .directory),
    (["theirs", fileName], .file (Text.utf8 "// mine\n")),
    (["sealed"], .directory),
    (["sealed", fileName], .file (Text.utf8 "// Generated by workertypes\n")),
    (["shut"], .directory)]
  refusals := [(["sealed", fileName], .read), (["shut"], .search)]

theorem fourDirectories_wellFormed : fourDirectories.WellFormed :=
  wellFormed_of_forall (by decide +kernel) (by decide +kernel)

/-- Below each of the four the attempt comes to something else, and the last three fail also with
nothing to declare. -/
theorem write_account_fourDirectories : fourDirectories.WellFormed ∧
    Proceeds fourDirectories [] "/ours/new" ⟨[⟨"A", "1"⟩], []⟩ .modules ⟨0, false⟩
      (write fourDirectories [] "/ours/new" ⟨[⟨"A", "1"⟩], []⟩ .modules ⟨0, false⟩) ∧
    (∀ d, write fourDirectories [] "/theirs/new" d .modules ⟨0, false⟩ =
      ⟨fourDirectories, .error (.foreign "/theirs/worker-configuration.d.ts"), []⟩) ∧
    (∀ d, write fourDirectories [] "/sealed/new" d .modules ⟨0, false⟩ =
      ⟨fourDirectories, .error (.inaccessible "/sealed/worker-configuration.d.ts"), []⟩) ∧
    ∀ d, write fourDirectories [] "/shut/new" d .modules ⟨0, false⟩ =
      ⟨fourDirectories, .error (.inaccessible "/shut/new/worker-configuration.d.ts"), []⟩ := by
  have haccount := fun directory d =>
    write_account fourDirectories_wellFormed [] directory d .modules ⟨0, false⟩
  have hours : nearestFile fourDirectories [] "/ours/new" fileName =
      .ok (some "/ours/worker-configuration.d.ts") := by decide +kernel
  have htheirs : nearestFile fourDirectories [] "/theirs/new" fileName =
      .ok (some "/theirs/worker-configuration.d.ts") := by decide +kernel
  have hsealed : nearestFile fourDirectories [] "/sealed/new" fileName =
      .ok (some "/sealed/worker-configuration.d.ts") := by decide +kernel
  have hshut : nearestFile fourDirectories [] "/shut/new" fileName =
      .error (.inaccessible "/shut/new/worker-configuration.d.ts") := by decide +kernel
  have hourBytes : fourDirectories.read [] "/ours/worker-configuration.d.ts" =
      .ok (Text.utf8 "// Generated by workertypes\n") := by decide +kernel
  have htheirBytes : fourDirectories.read [] "/theirs/worker-configuration.d.ts" =
      .ok (Text.utf8 "// mine\n") := by decide +kernel
  have hrefused : fourDirectories.read [] "/sealed/worker-configuration.d.ts" =
      .error .refused := by decide +kernel
  have hmarked : carries (Text.utf8 "// Generated by workertypes\n") marker := by decide +kernel
  have hunmarked : ¬ carries (Text.utf8 "// mine\n") marker := by decide +kernel
  rw [carries_iff] at hmarked hunmarked
  refine ⟨fourDirectories_wellFormed, ?_, fun d => ?_, fun d => ?_, fun d => ?_⟩
  · have hfound := haccount "/ours/new" ⟨[⟨"A", "1"⟩], []⟩
    simp only [hours, hourBytes] at hfound
    exact hfound.1 hmarked
  · have hfound := haccount "/theirs/new" d
    simp only [htheirs, htheirBytes] at hfound
    exact hfound.2 hunmarked
  · have hfound := haccount "/sealed/new" d
    simp only [hsealed, hrefused] at hfound
    exact hfound
  · have hfound := haccount "/shut/new" d
    simp only [hshut] at hfound
    exact hfound.1

end WorkerEnv.Generation
