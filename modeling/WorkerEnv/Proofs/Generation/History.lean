/-
# WorkerEnv.Proofs.Generation.History -- runs of attempts

In a run each attempt starts from the tree that the one before it left. `Ours` says that a directory
has a declaration file that was generated, is the one that the search comes to, and can be read and
written. An attempt that writes makes this so, if no file refuses to be read, and every later attempt
keeps it, whatever it is about; where it holds, no attempt fails. What stands at the target in the end
is what was written there last.
-/

import WorkerEnv.Proofs.Generation.Attempt

namespace WorkerEnv.Generation

open Storage Storage.FileTree Declaration

/-! ## Calls -/

/-- A call of the writer: the current directory, the directory to write in, and what to write. -/
structure Call where
  here : Location
  directory : String
  definitions : Definitions
  format : Script.Format
  time : Instant

namespace Call

/-- What the call comes to. -/
def attempt (c : Call) (t : FileTree) : Attempt :=
  write t c.here c.directory c.definitions c.format c.time

/-- The path of the file that the call is about. -/
def target (c : Call) : String := filePath c.directory

/-- The location of the file that the call is about. -/
def site (c : Call) : Location := targetOf c.here c.directory

/-- What the call puts into the file. -/
def bytes (c : Call) : List UInt8 := Text.utf8 (content c.definitions c.format c.time)

/-- Whether two calls are for the same directory. A relative path means the same directory only in
the same place. -/
def SameDirectory (c c' : Call) : Prop :=
  c.directory = c'.directory ∧ (isAbsolute c.directory ∨ c.here = c'.here)

end Call

/-- The tree after a run of calls. -/
def treeAfter (t : FileTree) (calls : List Call) : FileTree :=
  calls.foldl (fun t c => (c.attempt t).tree) t

/-- The calls of a run that write. -/
def writers (t : FileTree) : List Call → List Call
  | [] => []
  | c :: rest =>
    if (c.attempt t).hasWritten then c :: writers (c.attempt t).tree rest
    else writers (c.attempt t).tree rest

/-- The last of the calls of a run that write and whose path, when the run is over, leads to a given
location. -/
def lastWriter? (t : FileTree) (calls : List Call) (place : Location) : Option Call :=
  ((writers t calls).filter fun c =>
    (treeAfter t calls).resolve c.here c.target = .ok place).getLast?

variable {t t' : FileTree} {here : Location} {directory : String} {d : Definitions}
variable {format : Script.Format} {time : Instant} {a : Attempt}

theorem treeAfter_append (t : FileTree) (before after : List Call) :
    treeAfter t (before ++ after) = treeAfter (treeAfter t before) after :=
  List.foldl_append

theorem treeAfter_cons (t : FileTree) (c : Call) (rest : List Call) :
    treeAfter t (c :: rest) = treeAfter (c.attempt t).tree rest := rfl

theorem writers_append (t : FileTree) (before after : List Call) :
    writers t (before ++ after) = writers t before ++ writers (treeAfter t before) after := by
  induction before generalizing t with
  | nil => rfl
  | cons c rest ih =>
    rw [List.cons_append, writers, writers, treeAfter_cons, ih]
    split_ifs
    · rfl
    · rfl

/-! ## Generated files -/

/-- The directory has a generated declaration file, the search for the nearest file comes to it
first, and nothing refuses the access to it. -/
structure Ours (t : FileTree) (here : Location) (directory : String) : Prop where
  wellFormed : t.WellFormed
  looked : ∃ full, Looked t here directory fileName full
  usable : usable (filePath directory)
  enters : t.Enters (startOf here directory) (steps directory)
  marked : ∃ bytes, t.get? (targetOf here directory) = some (.file bytes) ∧ carries bytes marker
  readable : t.refuses (targetOf here directory) .read = false
  writable : t.refuses (targetOf here directory) .write = false

/-- What has been written is ours, unless it cannot be read. -/
theorem Came.ours (h : Came t here directory d format time a) (ht : t.WellFormed)
    (hread : t.refuses (targetOf here directory) .read = false) (hwritten : a.hasWritten) :
    Ours a.tree here directory := by
  obtain ⟨hperm, -, hcan, made, hdone, hmade, htree⟩ := h.of_hasWritten hwritten
  obtain ⟨full, hlooked⟩ := (clear_of_permission ht hperm).looked
  constructor
  · exact h.wellFormed ht
  · exact ⟨full, hlooked.kept h.directory_kept h.refusals⟩
  · exact hcan.usable
  · rw [htree]
    exact enters_set_target hcan hdone hmade _
  · exact ⟨_, h.content hwritten, carries_content d format time⟩
  · rwa [refuses_congr h.refusals]
  · rw [refuses_congr h.refusals]
    exact ht.refuses_of_admits hcan.admitted

theorem came_attempt (ht : t.WellFormed) (c : Call) :
    Came t c.here c.directory c.definitions c.format c.time (c.attempt t) :=
  came_write ht _ _ _ _ _

/-- Every attempt keeps a generated file, though perhaps with new content. -/
theorem Ours.attempt (h : Ours t here directory) (c : Call) :
    Ours (c.attempt t).tree here directory := by
  have hcame := came_attempt h.wellFormed c
  obtain ⟨full, hlooked⟩ := h.looked
  obtain ⟨bytes, hfile, hmark⟩ := h.marked
  constructor
  · exact hcame.wellFormed h.wellFormed
  · exact ⟨full, hlooked.kept hcame.directory_kept hcame.refusals⟩
  · exact h.usable
  · refine ⟨?_, (opens_congr hcame.refusals).2 h.enters.opens⟩
    intro p hp
    exact hcame.directory_kept (h.enters.leads p hp)
  · -- A call for the same file writes a marked one again; any other call leaves it alone.
    by_cases hover : (c.attempt t).hasWritten ∧ targetOf here directory = c.site
    · obtain ⟨hwritten, hsite⟩ := hover
      refine ⟨c.bytes, ?_, carries_content _ _ _⟩
      rw [hsite]
      exact hcame.content hwritten
    · refine ⟨bytes, hcame.file_kept hfile ?_, hmark⟩
      intro hwritten hsite
      exact hover ⟨hwritten, hsite⟩
  · rw [refuses_congr hcame.refusals]
    exact h.readable
  · rw [refuses_congr hcame.refusals]
    exact h.writable

theorem Ours.treeAfter (h : Ours t here directory) (calls : List Call) :
    Ours (treeAfter t calls) here directory := by
  induction calls generalizing t with
  | nil => exact h
  | cons c rest ih => exact ih (h.attempt c)

theorem Ours.permission (h : Ours t here directory) : permission t here directory = .ok () := by
  obtain ⟨full, hlooked⟩ := h.looked
  obtain ⟨bytes, hfile, hmark⟩ := h.marked
  rw [permission_of_looked hlooked h.wellFormed h.enters hfile, h.readable, if_neg (by simp),
    if_pos hmark]

/-- In a directory that has a generated file an attempt does not fail, and all it changes is the
content of that file. -/
theorem Ours.write (h : Ours t here directory) (d : Definitions) (format : Script.Format)
    (time : Instant) :
    write t here directory d format time =
      if d.isEmpty then ⟨t, .ok .untouched, []⟩
      else ⟨t.set (targetOf here directory) (.file (Text.utf8 (content d format time))),
        .ok (.written (filePath directory)), [body d format]⟩ := by
  have hcame := came_write h.wellFormed here directory d format time
  generalize Generation.write t here directory d format time = a at hcame ⊢
  cases hcame with
  | refused hrefused =>
    rw [h.permission] at hrefused
    cases hrefused
  | untouched hperm hempty => rw [if_pos hempty]
  | written hperm hsome hparent hcan hdone hmade =>
    rw [if_neg hsome,
      makeDirectories_of_enters h.wellFormed h.enters isName_fileName h.usable hparent]
  | failed hperm hsome hcannot hwf hgrown path =>
    obtain ⟨bytes, hfile, -⟩ := h.marked
    rw [targetOf] at hfile
    refine absurd (writable_of_enters h.wellFormed h.enters h.usable ?_ ?_) hcannot
    · rw [hfile]
      simp
    · have hwritable := h.writable
      rw [targetOf] at hwritable
      rw [admits_of_get? hfile, hwritable]
      rfl

theorem Ours.resolves (h : Ours t here directory) :
    t.resolve here (filePath directory) = .ok (targetOf here directory) :=
  resolve_filePath h.wellFormed h.enters h.usable

/-- A generated file is there for all calls that are for the same directory. -/
theorem Ours.same {c c' : Call} (h : Ours t c.here c.directory) (hsame : c'.SameDirectory c) :
    Ours t c'.here c'.directory := by
  obtain ⟨hdir, habs | hhere⟩ := hsame
  · rw [hdir] at habs ⊢
    -- Nothing about an absolute path depends on the current directory.
    have hstart : ∀ place, startOf place c.directory = [] := by
      intro place
      rw [startOf, if_pos habs]
    have htarget : ∀ place,
        targetOf place c.directory = landing [] (steps c.directory) ++ [fileName] := by
      intro place
      rw [targetOf, siteOf, hstart]
    have hfull : ∀ place, absoluteIn? t place c.directory = absolute? c.here c.directory := by
      intro place
      simp [absoluteIn?, absolute?, habs]
    have hsame : ∀ place, targetOf place c.directory = targetOf c.here c.directory := by
      intro place
      rw [htarget, htarget]
    obtain ⟨full, habsolute, hu, hreached⟩ := h.looked
    have henters := h.enters
    rw [hstart] at hreached henters
    constructor
    · exact h.wellFormed
    · refine ⟨full, ?_, hu, by rwa [hstart]⟩
      rw [hfull, ← habsolute, hfull]
    · exact h.usable
    · rwa [hstart]
    · rw [hsame]
      exact h.marked
    · rw [hsame]
      exact h.readable
    · rw [hsame]
      exact h.writable
  · rw [hdir, hhere]
    exact h

/-! ## Runs -/

theorem treeAfter_wellFormed (ht : t.WellFormed) (calls : List Call) :
    (treeAfter t calls).WellFormed := by
  induction calls generalizing t with
  | nil => exact ht
  | cons c rest ih => exact ih ((came_attempt ht c).wellFormed ht)

/-- No run gives or takes a right. -/
theorem treeAfter_refusals (ht : t.WellFormed) (calls : List Call) :
    (treeAfter t calls).refusals = t.refusals := by
  induction calls generalizing t with
  | nil => rfl
  | cons c rest ih =>
    have hcame := came_attempt ht c
    exact (ih (hcame.wellFormed ht)).trans hcame.refusals

theorem ours_of_mem_writers (ht : t.WellFormed) (hgrants : ∀ place, t.refuses place .read = false)
    {calls : List Call} {c : Call} (h : c ∈ writers t calls) :
    Ours (treeAfter t calls) c.here c.directory := by
  induction calls generalizing t with
  | nil => cases h
  | cons first rest ih =>
    have hcame := came_attempt ht first
    have hrest : ∀ place, (first.attempt t).tree.refuses place .read = false := by
      simpa only [refuses_congr hcame.refusals] using hgrants
    rw [writers] at h
    split_ifs at h with hwritten
    · rcases List.mem_cons.1 h with rfl | h
      · exact (hcame.ours ht (hgrants _) hwritten).treeAfter rest
      · exact ih (hcame.wellFormed ht) hrest h
    · exact ih (hcame.wellFormed ht) hrest h

/-- What was written last at a location is what the location holds. The induction is on the run from
its end, since that is where the last call stands. -/
theorem content_of_last (ht : t.WellFormed) {calls : List Call} {place : Location} {last : Call}
    (h : ((writers t calls).filter (·.site = place)).getLast? = some last) :
    (treeAfter t calls).get? place = some (.file last.bytes) := by
  induction calls using List.reverseRecOn with
  | nil => cases h
  | append_singleton rest c ih =>
    have hcame := came_attempt (treeAfter_wellFormed ht rest) c
    rw [writers_append, writers, List.filter_append] at h
    rw [treeAfter_append, treeAfter_cons]
    show (c.attempt (treeAfter t rest)).tree.get? place = _
    by_cases hover : (c.attempt (treeAfter t rest)).hasWritten ∧ c.site = place
    · obtain ⟨hwritten, hsite⟩ := hover
      rw [if_pos hwritten, writers, List.filter_cons_of_pos (by simpa using hsite),
        List.filter_nil, List.getLast?_concat] at h
      obtain rfl := Option.some.inj h
      rw [← hsite]
      exact hcame.content hwritten
    · -- The last call says nothing about the location, so the run before it decides.
      refine hcame.file_kept (ih ?_) ?_
      · rw [← h]
        split_ifs with hwritten
        · have hsite : c.site ≠ place := by
            intro hsite
            exact hover ⟨hwritten, hsite⟩
          simp [writers, hsite]
        · simp [writers]
      · intro hwritten hsite
        exact hover ⟨hwritten, hsite.symm⟩

theorem lastWriter?_eq (ht : t.WellFormed) (hgrants : ∀ place, t.refuses place .read = false)
    (calls : List Call) (place : Location) :
    lastWriter? t calls place = ((writers t calls).filter (·.site = place)).getLast? := by
  rw [lastWriter?]
  congr 1
  apply List.filter_congr
  intro c hc
  have hresolves := (ours_of_mem_writers ht hgrants hc).resolves
  rw [Call.target, hresolves]
  exact decide_eq_decide.2 ⟨Except.ok.inj, congrArg Except.ok⟩

/-- A call that has written can be repeated, and that leaves the tree as it is. -/
theorem repeated (ht : t.WellFormed) {c : Call} (hread : t.refuses c.site .read = false)
    (hwritten : (c.attempt t).hasWritten) :
    c.attempt (c.attempt t).tree =
      ⟨(c.attempt t).tree, .ok (.written c.target), [body c.definitions c.format]⟩ := by
  have hcame := came_attempt ht c
  obtain ⟨-, hsome, -⟩ := hcame.of_hasWritten hwritten
  rw [Call.attempt, (hcame.ours ht hread hwritten).write, if_neg hsome, hcame.set_content hwritten]
  rfl

/-- As long as no file refuses to be read: once a call has written, no later call for the same
directory fails; the file at its target is at all times what the last call has written there; and the
same call once more changes nothing. -/
theorem generated_stays (ht : t.WellFormed) (hgrants : ∀ place, t.refuses place .read = false)
    {before : List Call} {c : Call} (hwritten : (c.attempt (treeAfter t before)).hasWritten) (after : List Call) :
    (∀ mid later rest, after = mid ++ later :: rest → later.SameDirectory c →
      ∃ outcome, (later.attempt (treeAfter t (before ++ c :: mid))).result = .ok outcome) ∧
    (∃ place last, (treeAfter t (before ++ c :: after)).resolve c.here c.target = .ok place ∧
      lastWriter? t (before ++ c :: after) place = some last ∧
      (treeAfter t (before ++ c :: after)).get? place = some (.file last.bytes)) ∧
    (c.attempt (treeAfter t (before ++ [c]))).result = .ok (.written c.target) ∧
    treeAfter t (before ++ [c, c]) = treeAfter t (before ++ [c]) := by
  have hbefore := treeAfter_wellFormed ht before
  have hread : (treeAfter t before).refuses c.site .read = false := by
    rw [refuses_congr (treeAfter_refusals ht before)]
    exact hgrants c.site
  have hours : ∀ mid, Ours (treeAfter t (before ++ c :: mid)) c.here c.directory := by
    intro mid
    rw [treeAfter_append, treeAfter_cons]
    exact ((came_attempt hbefore c).ours hbefore hread hwritten).treeAfter mid
  refine ⟨?_, ?_, ?_⟩
  · rintro mid later rest - hsame
    rw [Call.attempt, ((hours mid).same hsame).write]
    split_ifs
    · exact ⟨_, rfl⟩
    · exact ⟨_, rfl⟩
  · -- The call itself is one that wrote there, so there is a last one.
    have hmem : c ∈ writers t (before ++ c :: after) := by
      rw [writers_append, writers, if_pos hwritten]
      simp
    have hfilter : c ∈ (writers t (before ++ c :: after)).filter (·.site = c.site) :=
      List.mem_filter.2 ⟨hmem, by simp⟩
    obtain ⟨last, hlast⟩ := Option.isSome_iff_exists.1
      (List.getLast?_isSome.2 (List.ne_nil_of_mem hfilter))
    refine ⟨c.site, last, (hours after).resolves, ?_, content_of_last ht hlast⟩
    rw [lastWriter?_eq ht hgrants, hlast]
  · have hrepeated := repeated hbefore hread hwritten
    have hone : treeAfter t (before ++ [c]) = (c.attempt (treeAfter t before)).tree := by
      rw [treeAfter_append]
      rfl
    have htwo : treeAfter t (before ++ [c, c]) =
        (c.attempt (c.attempt (treeAfter t before)).tree).tree := by
      rw [treeAfter_append]
      rfl
    rw [htwo, hone, hrepeated]
    exact ⟨rfl, rfl⟩

/-- A call that writes in an empty tree. -/
def firstCall : Call := ⟨[], "/a", ⟨[⟨"A", "1"⟩], []⟩, .modules, ⟨0, false⟩⟩

/-- A call with nothing to declare, for the same directory. -/
def idleCall : Call := { firstCall with definitions := ⟨[], []⟩ }

theorem generated_stays_first : FileTree.empty.WellFormed ∧
    (∀ place, FileTree.empty.refuses place .read = false) ∧
    (firstCall.attempt FileTree.empty).hasWritten ∧
    ∃ place last, (treeAfter FileTree.empty [firstCall, idleCall]).resolve [] firstCall.target =
        .ok place ∧
      lastWriter? FileTree.empty [firstCall, idleCall] place = some last ∧
      (treeAfter FileTree.empty [firstCall, idleCall]).get? place = some (.file last.bytes) := by
  have hwritten : (firstCall.attempt (treeAfter FileTree.empty [])).hasWritten := by decide +kernel
  have hgrants : ∀ place, FileTree.empty.refuses place .read = false := fun place => rfl
  have hstays := generated_stays wellFormed_empty hgrants hwritten [idleCall]
  exact ⟨wellFormed_empty, hgrants, hwritten, hstays.2.1⟩

end WorkerEnv.Generation
