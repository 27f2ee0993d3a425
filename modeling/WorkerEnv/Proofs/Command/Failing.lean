/-
# WorkerEnv.Proofs.Command.Failing -- what a run that fails leaves behind

A run fails on one of several things, one after the other: the manifest, the environment, the entry
point, the ownership of the declaration file, and the writing of it. `Fails` lists them with the tree
that is left. Only the last comes after something has been done, and all that has been done by then is
the making of directories; nothing is printed before everything has gone well.
-/

import WorkerEnv.Proofs.Command.Ownership

namespace WorkerEnv.Command

open Storage Storage.FileTree Declaration Generation

variable {t : FileTree} {here : Location} {now : Instant} {o : TypesOptions}

/-! ## What can fail -/

/-- Everything that comes before the making of directories has gone well, and there is something to
write. -/
structure Ready (t : FileTree) (here : Location) (o : TypesOptions) (d : Definitions) : Prop where
  earnest : ¬ o.dryRun
  read : ∃ project bindings format, Project.openAt t here o.config = .ok project ∧
    project.manifest.select o.environment = .ok bindings ∧
    entryFormat t here o.format project.manifest project.directory = .ok format ∧
    d = Definitions.ofBindings bindings
  permitted : permission t here o.directory = .ok ()
  nonempty : ¬ d.isEmpty

/-- What a request can fail on, with the tree that is left. -/
inductive Fails (t : FileTree) (here : Location) : Request → Trouble → FileTree → Prop where
  /-- The manifest, the environment or the entry point is to blame. -/
  | unplanned {o : TypesOptions} {problem : Manifest.Problem}
      (h : plan t here o = .error problem) : Fails t here (.types o) (.manifest problem) t
  /-- The manifest or the environment is to blame. -/
  | unchecked (o : CheckOptions) (problem : Manifest.Problem) :
      Fails t here (.check o) (.manifest problem) t
  /-- The nearest declaration file forbids the writing, or cannot be looked at. -/
  | refused {o : TypesOptions} {failure : Failure} (hearnest : ¬ o.dryRun)
      (h : permission t here o.directory = .error failure) :
      Fails t here (.types o) (.storage failure) t
  /-- The file cannot be written, though its directory may have been made. -/
  | unwritten {o : TypesOptions} {d : Definitions} {made : FileTree} (hready : Ready t here o d)
      (hgrown : GrownBy (passed (startOf here o.directory) (steps o.directory)) t made)
      (path : String) : Fails t here (.types o) (.storage (.inaccessible path)) made

/-- A plan is made of a manifest, bindings and a form that have all been found. -/
theorem exists_of_plan {p : Plan} (h : plan t here o = .ok p) :
    ∃ project bindings, Project.openAt t here o.config = .ok project ∧
      project.manifest.select o.environment = .ok bindings ∧
      entryFormat t here o.format project.manifest project.directory = .ok p.format ∧
      p.definitions = Definitions.ofBindings bindings := by
  rw [plan] at h
  cases hopen : Project.openAt t here o.config with
  | error problem =>
    rw [hopen] at h
    cases h
  | ok project =>
    rw [hopen] at h
    cases hselect : project.manifest.select o.environment with
    | error problem =>
      simp only [bind, Except.bind, hselect] at h
      cases h
    | ok bindings =>
      cases hformat : entryFormat t here o.format project.manifest project.directory with
      | error problem =>
        simp only [bind, Except.bind, hselect, hformat] at h
        cases h
      | ok format =>
        simp only [bind, Except.bind, hselect, hformat, pure, Except.pure] at h
        cases h
        exact ⟨project, bindings, rfl, hselect, hformat, rfl⟩

theorem ready_of_plan {p : Plan} (hplan : plan t here o = .ok p) (hearnest : ¬ o.dryRun)
    (hperm : permission t here o.directory = .ok ()) (hsome : ¬ p.definitions.isEmpty) :
    Ready t here o p.definitions := by
  obtain ⟨project, bindings, hopen, hselect, hformat, hdefinitions⟩ := exists_of_plan hplan
  exact ⟨hearnest, ⟨project, bindings, p.format, hopen, hselect, hformat, hdefinitions⟩, hperm, hsome⟩

theorem runTypes_cases (ht : t.WellFormed) (here : Location) (now : Instant) (o : TypesOptions) :
    (runTypes t here now o).status = 0 ∨
      ∃ trouble left, Fails t here (.types o) trouble left ∧
        runTypes t here now o = .failure left trouble := by
  rw [runTypes]
  cases hplan : plan t here o with
  | error problem => exact Or.inr ⟨_, _, .unplanned hplan, rfl⟩
  | ok p =>
    by_cases hdry : o.dryRun
    · simp only [hdry, if_true]
      exact Or.inl rfl
    simp only [hdry, Bool.false_eq_true, if_false]
    have hcame := came_write ht here o.directory p.definitions p.format now
    generalize write t here o.directory p.definitions p.format now = a at hcame ⊢
    cases hcame with
    | refused hperm => exact Or.inr ⟨_, _, .refused hdry hperm, rfl⟩
    | untouched hperm hempty => exact Or.inl rfl
    | written hperm hsome hparent hcan hdone hmade => exact Or.inl rfl
    | failed hperm hsome hcannot hwf hgrown path =>
      exact Or.inr ⟨_, _, .unwritten (ready_of_plan hplan hdry hperm hsome) hgrown path, rfl⟩

theorem runCheck_cases (t : FileTree) (here : Location) (o : CheckOptions) :
    (runCheck t here o).status = 0 ∨
      ∃ trouble left, Fails t here (.check o) trouble left ∧
        runCheck t here o = .failure left trouble := by
  rw [runCheck]
  split
  · next problem _ => exact Or.inr ⟨_, _, .unchecked o problem, rfl⟩
  · exact Or.inl rfl

/-- A command line whose status is 1 asks for something that fails. -/
theorem fails_of_status (ht : t.WellFormed) {arguments : List String}
    (h : (run t here now arguments).status = 1) :
    ∃ request trouble left, Request.ofArguments arguments = .ok request ∧
      Fails t here request trouble left ∧ run t here now arguments = .failure left trouble := by
  rw [run] at h ⊢
  cases harguments : Request.ofArguments arguments with
  | error stop =>
    rw [harguments] at h
    cases stop <;> cases h
  | ok request =>
    simp only [harguments] at h ⊢
    have hcases : (request.run t here now).status = 0 ∨
        ∃ trouble left, Fails t here request trouble left ∧
          request.run t here now = .failure left trouble := by
      cases request with
      | types o => exact runTypes_cases ht here now o
      | check o => exact runCheck_cases t here o
      | completions shell => exact Or.inl rfl
    rcases hcases with hzero | ⟨trouble, left, hfails, hresult⟩
    · rw [hzero] at h
      cases h
    · exact ⟨request, trouble, left, rfl, hfails, hresult⟩

/-! ## What is left -/

/-- Directories are all that a failing request can leave, and only one that was ready to write. -/
theorem Fails.grown {request : Request} {trouble : Trouble} {left : FileTree}
    (h : Fails t here request trouble left) :
    left = t ∨ ∃ o d, request = .types o ∧ Ready t here o d ∧
      GrownBy (passed (startOf here o.directory) (steps o.directory)) t left := by
  cases h with
  | unplanned h => exact Or.inl rfl
  | unchecked o problem => exact Or.inl rfl
  | refused hearnest h => exact Or.inl rfl
  | unwritten hready hgrown path => exact Or.inr ⟨_, _, rfl, hready, hgrown⟩

theorem Fails.file_iff {request : Request} {trouble : Trouble} {left : FileTree}
    (h : Fails t here request trouble left) (p : Location) (bytes : List UInt8) :
    left.get? p = some (.file bytes) ↔ t.get? p = some (.file bytes) := by
  rcases h.grown with rfl | ⟨o, d, -, -, hgrown⟩
  · exact Iff.rfl
  · exact hgrown.file_iff

/-- Whether a request only reads. -/
def Request.readsOnly : Request → Bool
  | .types o => o.dryRun
  | .check _ => true
  | .completions _ => true

theorem run_tree_of_readsOnly {arguments : List String} {request : Request}
    (hrequest : Request.ofArguments arguments = .ok request) (hreads : request.readsOnly) :
    (run t here now arguments).tree = t := by
  have htree : (run t here now arguments).tree =
      Action.effect t ((Action.command here now arguments).call? t) :=
    Action.tree_eq t (.command here now arguments)
  rw [htree, Action.call?, hrequest]
  cases request with
  | types o =>
    have hdry : o.dryRun = true := hreads
    simp only [hdry, if_true]
    rfl
  | check o => rfl
  | completions shell => rfl

/-- An attempt that fails has told the log nothing. -/
theorem told_of_error {directory : String} {d : Definitions} {format : Script.Format}
    {failure : Failure} (h : (write t here directory d format now).result = .error failure) :
    (write t here directory d format now).told = [] := by
  rw [Generation.write] at h ⊢
  cases hperm : permission t here directory with
  | error refusal => rfl
  | ok clear =>
    simp only [hperm] at h ⊢
    by_cases hempty : d.isEmpty
    · rw [if_pos hempty]
    · rw [if_neg hempty] at h ⊢
      rcases hwritten : writeText t here (filePath directory) (content d format now) with
        ⟨left, _ | _⟩
      · simp only [hwritten] at h
        cases h
      · rfl

/-- A command line that fails prints nothing and changes no file, and directories are all it can
leave, after everything but the writing has gone well. One that only reads leaves the tree as it is in
any case. An attempt that fails has told the log nothing. -/
theorem failed_account (ht : t.WellFormed) (here : Location) (now : Instant)
    (arguments : List String) :
    ((run t here now arguments).status = 1 →
      (run t here now arguments).output = "" ∧
      (∀ p bytes, (run t here now arguments).tree.get? p = some (.file bytes) ↔
        t.get? p = some (.file bytes)) ∧
      ((run t here now arguments).tree = t ∨
        ∃ o d, Request.ofArguments arguments = .ok (.types o) ∧ Ready t here o d ∧
          GrownBy (passed (startOf here o.directory) (steps o.directory)) t
            (run t here now arguments).tree)) ∧
    (∀ request, Request.ofArguments arguments = .ok request → request.readsOnly →
      (run t here now arguments).tree = t) ∧
    ∀ directory d format failure, (write t here directory d format now).result = .error failure →
      (write t here directory d format now).told = [] := by
  refine ⟨?_, fun request => run_tree_of_readsOnly, fun directory d format failure => told_of_error⟩
  intro hstatus
  obtain ⟨request, trouble, left, hrequest, hfails, hresult⟩ := fails_of_status ht hstatus
  rw [hresult]
  refine ⟨rfl, hfails.file_iff, ?_⟩
  rcases hfails.grown with hsame | ⟨o, d, rfl, hready, hgrown⟩
  · exact Or.inl hsame
  · exact Or.inr ⟨o, d, hrequest, hready, hgrown⟩

/-- A tree in which a directory has the place of the declaration file. -/
def takenPlace : FileTree :=
  (FileTree.empty.set ["wrangler.toml"] (.file (Text.utf8 "[vars]\nA = 1\n"))).set
    [fileName] .directory

/-- A command line that goes there through a directory that is missing. -/
def throughNew : List String := ["types", "--format", "modules", "-C", "new/.."]

theorem takenPlace_wellFormed : takenPlace.WellFormed :=
  wellFormed_of_forall (by decide +kernel) (by decide +kernel)

/-- The missing directory is made and left, and that is all. -/
theorem failed_account_takenPlace : takenPlace.WellFormed ∧
    (run takenPlace [] ⟨0, false⟩ throughNew).status = 1 ∧
    (run takenPlace [] ⟨0, false⟩ throughNew).tree.get? ["new"] = some .directory ∧
    takenPlace.get? ["new"] = none ∧
    (run takenPlace [] ⟨0, false⟩ throughNew).output = "" ∧
    ∀ p bytes, (run takenPlace [] ⟨0, false⟩ throughNew).tree.get? p = some (.file bytes) ↔
      takenPlace.get? p = some (.file bytes) := by
  have hstatus : (run takenPlace [] ⟨0, false⟩ throughNew).status = 1 := by decide +kernel
  have hnew : (run takenPlace [] ⟨0, false⟩ throughNew).tree.get? ["new"] = some .directory := by
    decide +kernel
  have hold : takenPlace.get? ["new"] = none := by decide +kernel
  have haccount := (failed_account takenPlace_wellFormed [] ⟨0, false⟩ throughNew).1 hstatus
  exact ⟨takenPlace_wellFormed, hstatus, hnew, hold, haccount.1, haccount.2.1⟩

end WorkerEnv.Command
