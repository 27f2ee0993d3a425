/-
# WorkerEnv.Proofs.Command.Rooted -- relative paths mean the same as absolute ones

A request for types has two paths, and a third one, that of the entry point, is made from the first
and the manifest. Four operations treat them in four ways: reading goes by the segments, the directory
of the manifest by the lexical parent, the search for the nearest declaration file by the absolute
form, and the making of directories by all parents one after the other. They agree: with both paths
behind that of the current directory the run is the same but for the target's path on the output. What
it takes is that one can come to the current directory from the root, and that no path is too long for
the system in one form and short enough in the other.
-/

import WorkerEnv.Command.Run
import WorkerEnv.Proofs.Generation.Permission
import WorkerEnv.Proofs.Manifest.Reading
import WorkerEnv.Proofs.Storage.RootedWriting

namespace WorkerEnv.Command

open Storage Storage.FileTree Manifest Declaration Generation

variable {t : FileTree} {here : Location} {o : TypesOptions}

/-- The request with both paths behind that of the current directory. -/
def TypesOptions.rooted (here : Location) (o : TypesOptions) : TypesOptions :=
  { o with config := Storage.rooted here o.config, directory := Storage.rooted here o.directory }

theorem TypesOptions.rooted_config : (o.rooted here).config = Storage.rooted here o.config := rfl

/-! ## The directory of the manifest -/

section Manifest

variable {p p' : Project} {place : Location}

theorem exists_of_readText? {path text : String} (h : t.readText? here path = some text) :
    ∃ place bytes, t.resolve here path = .ok place ∧ t.get? place = some (.file bytes) := by
  rw [readText?, FileTree.read, FileTree.find] at h
  cases hresolve : t.resolve here path with
  | error fault =>
    rw [hresolve] at h
    cases h
  | ok place =>
    rw [hresolve] at h
    cases hget : t.get? place with
    | none => simp [bind, Except.bind, hget] at h
    | some entry =>
      cases entry with
      | directory => simp [bind, Except.bind, pure, Except.pure, hget] at h
      | removed => simp [bind, Except.bind, pure, Except.pure, hget] at h
      | file bytes => exact ⟨place, bytes, rfl, hget⟩

theorem walk_of_resolve {path : String} (h : t.resolve here path = .ok place) :
    t.walk (startOf here path) (segments path) = .ok place := by
  have hne : path ≠ "" := by
    rintro rfl
    cases h
  have hu : usable path := by
    by_contra hu
    rw [resolve, route_of_unusable hne hu] at h
    cases h
  rwa [resolve_of_usable hne hu] at h

/-- The directory of a manifest that was read, by the path that is made for it. -/
structure Houses (t : FileTree) (here : Location) (p : Project) (place : Location) : Prop where
  nonempty : p.directory ≠ ""
  enters : t.enter (startOf here p.directory) (segments p.directory) = .ok place

/-- The dot that stands for the empty parent has the same start and no steps either. -/
theorem directory_of_parent? {above : String} (hparent : parent? p.path = some above) :
    p.directory ≠ "" ∧ steps p.directory = steps above ∧
      isAbsolute p.directory = isAbsolute above := by
  have hdirectory : p.directory = if above = "" then "." else above := by
    rw [Project.directory, hparent]
  rw [hdirectory]
  split_ifs with hempty
  · rw [hempty]
    decide
  · exact ⟨hempty, rfl, rfl⟩

theorem houses_of_resolve (hstart : t.Stands (startOf here p.path))
    (hresolve : t.resolve here p.path = .ok place) {bytes : List UInt8}
    (hfile : t.get? place = some (.file bytes)) : Houses t here p place.dropLast := by
  obtain ⟨above, hparent, habs, henter⟩ :=
    exists_parent_of_file hstart (walk_of_resolve hresolve) hfile
  obtain ⟨hne, hsteps, hstarts⟩ := directory_of_parent? hparent
  have hroot : startOf here p.directory = startOf here p.path := by
    rw [startOf, hstarts, habs, startOf]
  refine ⟨hne, ?_⟩
  rw [hroot, ← enter_filter]
  change t.enter _ (steps p.directory) = _
  rw [hsteps, henter]

theorem Houses.walk_join (h : Houses t here p place) {main : String} (hrel : ¬ isAbsolute main) :
    t.walk (startOf here (join p.directory main)) (segments (join p.directory main)) =
      t.walk place (segments main) :=
  Storage.walk_join h.nonempty hrel (walk_of_enter h.enters).1

/-- An entry point is the same file for two manifests in one directory. -/
theorem Houses.readText?_entry (h : Houses t here p place) (h' : Houses t here p' place)
    {main : String} (hu : usable (join p'.directory main) ↔ usable (join p.directory main)) :
    t.readText? here (join p'.directory main) = t.readText? here (join p.directory main) := by
  by_cases hrel : isAbsolute main
  · rw [join, if_pos hrel, join, if_pos hrel]
  · have hne := join_ne_empty_of_base h.nonempty main
    have hne' := join_ne_empty_of_base h'.nonempty main
    refine readText?_congr (resolve_congr hne hne' hu ?_)
    rw [h.walk_join hrel, h'.walk_join hrel]

theorem Houses.sameReading_entryFormat (h : Houses t here p place) (h' : Houses t here p' place)
    (explicit : Option Script.Format) (m : Manifest)
    (hu : ∀ main, m.main = some main →
      (usable (join p'.directory main) ↔ usable (join p.directory main))) :
    SameReading (entryFormat t here explicit m p.directory)
      (entryFormat t here explicit m p'.directory) := by
  unfold entryFormat
  cases explicit with
  | some format => exact .refl _
  | none =>
    cases m.format with
    | some format => exact .refl _
    | none =>
      cases hmain : m.main with
      | none => exact .refl _
      | some main =>
        simp only [h.readText?_entry h' (hu main hmain)]
        cases t.readText? here (join p.directory main) with
        | none => exact .error (.entryPoint _ _)
        | some source => exact .refl _

end Manifest

/-! ## The plan -/

/-- Each path that a request for types comes to is usable in both forms or in none: that of the
manifest, those of the declaration file and of its directory, and that of the entry point. -/
structure TypesOptions.Measured (t : FileTree) (here : Location) (o : TypesOptions) : Prop where
  config : usable (Storage.rooted here o.config) ↔ usable o.config
  target : Storage.Measured here o.directory fileName
  entry : ∀ project main, Project.openAt t here o.config = .ok project →
    project.manifest.main = some main →
    (usable (join (Project.directory ⟨Storage.rooted here o.config, project.manifest⟩) main) ↔
      usable (join project.directory main))

theorem plan_rooted (ht : t.WellFormed) (hhere : t.get? here = some .directory)
    (hreach : t.Reachable here) (hne : o.config ≠ "") (hrel : ¬ isAbsolute o.config) (hu : o.Measured t here) :
    SameReading (plan t here o) (plan t here (o.rooted here)) := by
  have hresolve := resolve_rooted ht hhere hreach hne hrel hu.config
  have hread := readText?_congr hresolve
  have hentry := hu.entry
  rw [plan, plan]
  simp only [TypesOptions.rooted]
  rw [Project.openAt] at hentry ⊢
  rw [Project.openAt, hread]
  cases htext : t.readText? here o.config with
  | none => exact .error (.unreadable _ _)
  | some text =>
    simp only [htext] at hentry ⊢
    have hparse : SameReading (parse text o.config) (parse text (Storage.rooted here o.config)) :=
      sameReading_parse rfl _ _
    generalize parse text o.config = x at hparse hentry
    generalize parse text (Storage.rooted here o.config) = x' at hparse
    cases hparse with
    | error h => exact .error h
    | ok m =>
      -- Both manifests stand in the directory of the one file.
      obtain ⟨place, bytes, hplace, hfile⟩ := exists_of_readText? htext
      have hstart : t.Stands (startOf here o.config) := by
        rw [startOf, if_neg hrel]
        exact ht.stands hhere
      have hhouses : Houses t here ⟨o.config, m⟩ place.dropLast :=
        houses_of_resolve hstart hplace hfile
      have hhouses' : Houses t here ⟨Storage.rooted here o.config, m⟩ place.dropLast :=
        houses_of_resolve (by rw [startOf_rooted hrel]; exact stands_root t) (hresolve.trans hplace) hfile
      change SameReading (m.select o.environment >>= _) (m.select o.environment >>= _)
      refine SameReading.bind (.refl _) fun bindings => ?_
      refine SameReading.bind ?_ fun format => .refl _
      exact hhouses.sameReading_entryFormat hhouses' o.format m fun main => hentry ⟨_, m⟩ main rfl

/-! ## The run -/

/-- Two runs failed on things of one kind. -/
inductive Trouble.Alike : Trouble → Trouble → Prop where
  | manifest {problem problem' : Problem} (h : problem.Alike problem') :
      Alike (.manifest problem) (.manifest problem')
  | storage {failure failure' : Failure} (h : failure.Alike failure') :
      Alike (.storage failure) (.storage failure')

/-- Two runs come to the same: one status, one tree, and one output but for a path shown in it. -/
inductive SameRun (target target' : String) : Result → Result → Prop where
  | failed (t : FileTree) {trouble trouble' : Trouble} (h : trouble.Alike trouble') :
      SameRun target target' (.failure t trouble) (.failure t trouble')
  | alike (t : FileTree) (lines : List String) :
      SameRun target target' (.success t lines) (.success t lines)
  | showing (t : FileTree) (before after : List String) (lead tail : String) :
      SameRun target target' (.success t (before ++ (lead ++ target ++ tail) :: after))
        (.success t (before ++ (lead ++ target' ++ tail) :: after))

theorem permission_rooted (ht : t.WellFormed) (hhere : t.get? here = some .directory)
    {directory : String} (hne : directory ≠ "") (hrel : ¬ isAbsolute directory) :
    permission t here (rooted here directory) = permission t here directory := by
  rw [permission, permission, provenance, provenance, nearestFile_rooted ht hhere hne hrel]

theorem conclude_write_rooted (ht : t.WellFormed) (hhere : t.get? here = some .directory)
    {directory : String} (hne : directory ≠ "") (hrel : ¬ isAbsolute directory)
    (hu : Storage.Measured here directory fileName) (d : Definitions) (format : Script.Format)
    (now : Instant) (tally : String) :
    SameRun (filePath directory) (filePath (rooted here directory))
      (conclude tally (write t here directory d format now))
      (conclude tally (write t here (rooted here directory) d format now)) := by
  rw [Generation.write, Generation.write, permission_rooted ht hhere hne hrel]
  cases hperm : permission t here directory with
  | error failure =>
    refine .failed t (.storage ?_)
    cases failure with
    | foreign path => exact .foreign path
    | inaccessible path => exact .inaccessible path path
  | ok clear =>
    by_cases hempty : d.isEmpty
    · simp only [hempty, if_true]
      exact .alike t _
    · simp only [hempty, Bool.false_eq_true, if_false]
      -- Where the search has come to an end it has gone from the root to the current directory.
      obtain ⟨full, hlooked⟩ := (clear_of_permission ht hperm).looked
      have hreached := hlooked.reached
      rw [startOf, if_neg hrel] at hreached
      have hwriting := writeBytes_rooted ht hhere hreached hrel isName_fileName hu
        (Text.utf8 (content d format now))
      rw [writeText, writeText]
      change SameWriting (writeBytes t here (filePath directory) _)
        (writeBytes t here (filePath (rooted here directory)) _) at hwriting
      generalize writeBytes t here (filePath directory) _ = w at hwriting ⊢
      generalize writeBytes t here (filePath (rooted here directory)) _ = w' at hwriting ⊢
      cases hwriting with
      | done left =>
        have hshown := @SameRun.showing (filePath directory) (filePath (rooted here directory)) left
          ([String.ofList (Text.trimEnd (body d format).toList)] ++ ["Generated:"]) [] "  + "
          (" - " ++ tally)
        simpa [conclude, outcomeReport, String.append_assoc] using hshown
      | failed left path path' => exact .failed left (.storage (.inaccessible path path'))

/-- A request for types with relative paths and the same request with both paths behind that of the
current directory come to the same plan, or to problems of one kind, and their runs come to the same
but for the target's path. -/
theorem rooted_account (ht : t.WellFormed) (hhere : t.get? here = some .directory)
    (hreach : t.Reachable here) (hconfig : o.config ≠ "") (hconfigRel : ¬ isAbsolute o.config) (hdirectory : o.directory ≠ "")
    (hdirectoryRel : ¬ isAbsolute o.directory) (hu : o.Measured t here) (now : Instant) :
    SameReading (plan t here o) (plan t here (o.rooted here)) ∧
      SameRun (filePath o.directory) (filePath (o.rooted here).directory)
        (runTypes t here now o) (runTypes t here now (o.rooted here)) := by
  have hplan := plan_rooted ht hhere hreach hconfig hconfigRel hu
  refine ⟨hplan, ?_⟩
  rw [runTypes, runTypes]
  generalize plan t here o = x at hplan ⊢
  generalize plan t here (o.rooted here) = x' at hplan ⊢
  cases hplan with
  | error h => exact .failed t (.manifest h)
  | ok p =>
    change SameRun _ _ (if o.dryRun then _ else _) (if o.dryRun then _ else _)
    split_ifs
    · exact .showing t [] _ "── " " ──"
    · exact conclude_write_rooted ht hhere hdirectory hdirectoryRel hu.target _ _ _ _

/-! ## A worker of its own directory -/

/-- A tree with a manifest and an entry point in one directory. -/
def workerTree : FileTree :=
  ((FileTree.empty.set ["worker"] .directory).set ["worker", "wrangler.toml"]
    (.file (Text.utf8 "main = \"w.js\"\n[vars]\nA = 1\n"))).set ["worker", "w.js"]
    (.file (Text.utf8 "export default {};\n"))

/-- A request with paths that say more than they need to. -/
def roundabout : TypesOptions where
  config := "../worker//./wrangler.toml"
  environment := none
  format := none
  dryRun := false
  directory := "new/.."

theorem workerTree_wellFormed : workerTree.WellFormed :=
  wellFormed_of_forall (by decide +kernel) (by decide +kernel)

theorem roundabout_measured : roundabout.Measured workerTree ["worker"] where
  config := by decide
  target :=
    { target := by decide
      parent := by
        have hparent : parent? (join "new/.." fileName) = some "new/.." := by decide
        have hparent' :
            parent? (join (Storage.rooted ["worker"] "new/..") fileName) = some "/worker/new/.." := by
          decide
        intro above above' h h'
        rw [roundabout, hparent] at h
        rw [roundabout, hparent'] at h'
        cases h
        cases h'
        decide }
  entry := by
    intro project main hopen hmain
    have hpath : project.path = roundabout.config ∧ project.manifest.main = some "w.js" := by
      have hboth : (Project.openAt workerTree ["worker"] roundabout.config).toOption.map
          (fun p => (p.path, p.manifest.main)) = some (roundabout.config, some "w.js") := by
        decide +kernel
      rw [hopen] at hboth
      simpa [Except.toOption] using hboth
    have hdirectory : project.directory = "../worker" := by
      rw [Project.directory, hpath.1]
      decide
    have hdirectory' : Project.directory
        ⟨Storage.rooted ["worker"] roundabout.config, project.manifest⟩ = "/worker/../worker" := by
      have hparent : parent? (Storage.rooted ["worker"] roundabout.config) =
          some "/worker/../worker" := by decide
      simp [Project.directory, hparent]
    rw [hpath.2] at hmain
    cases hmain
    rw [hdirectory, hdirectory']
    decide

theorem rooted_account_roundabout : workerTree.WellFormed ∧ workerTree.Reachable ["worker"] ∧
    roundabout.Measured workerTree ["worker"] ∧
    (runTypes workerTree ["worker"] ⟨0, false⟩ roundabout).status = 0 ∧
    SameReading (plan workerTree ["worker"] roundabout)
      (plan workerTree ["worker"] (roundabout.rooted ["worker"])) ∧
    SameRun (filePath "new/..") (filePath "/worker/new/..")
      (runTypes workerTree ["worker"] ⟨0, false⟩ roundabout)
      (runTypes workerTree ["worker"] ⟨0, false⟩ (roundabout.rooted ["worker"])) := by
  have hstatus : (runTypes workerTree ["worker"] ⟨0, false⟩ roundabout).status = 0 := by
    decide +kernel
  have hreach : workerTree.Reachable ["worker"] := fun above _ _ => rfl
  have haccount := rooted_account workerTree_wellFormed (by decide) hreach (by decide) (by decide)
    (by decide) (by decide) roundabout_measured ⟨0, false⟩
  have htarget : (roundabout.rooted ["worker"]).directory = "/worker/new/.." := by decide
  rw [htarget] at haccount
  exact ⟨workerTree_wellFormed, hreach, roundabout_measured, hstatus, haccount⟩

/-! ## A path that only just fits -/

/-- A name behind a number of dots, each with a slash. -/
def dotted : Nat → String → String
  | 0, name => name
  | n + 1, name => "." ++ "/" ++ dotted n name

theorem byteSize_dotted (n : Nat) (name : String) :
    Text.byteSize (dotted n name).toList = 2 * n + Text.byteSize name.toList := by
  induction n with
  | zero => simp [dotted]
  | succ n ih =>
    have hdot : Text.byteSize ".".toList = 1 := by decide
    have hslash : Text.byteSize "/".toList = 1 := by decide
    rw [dotted, String.toList_append, String.toList_append, Text.byteSize_append, Text.byteSize_append,
      hdot, hslash, ih]
    omega

theorem nul_not_mem_dotted {name : String} (h : '\x00' ∉ name.toList) (n : Nat) :
    '\x00' ∉ (dotted n name).toList := by
  induction n with
  | zero => exact h
  | succ n ih =>
    rw [dotted, String.toList_append, List.mem_append, not_or]
    exact ⟨by decide, ih⟩

theorem walk_dotted (hhere : t.get? here = some .directory)
    (hopen : t.refuses here .search = false) (n : Nat) (name : String) :
    t.walk here (segments (dotted n name)) = t.walk here (segments name) := by
  induction n with
  | zero => rfl
  | succ n ih =>
    have hdot : segments "." = ["."] := segments_of_no_slash (by decide)
    have htrivial : isTrivial "." := by decide
    rw [dotted, segments_append_slash, hdot, List.singleton_append, walk, hhere]
    simp only [htrivial, hopen, Bool.false_eq_true, false_and, if_false, if_true, ih]

/-- A request whose manifest has a path of 4095 bytes, the greatest number. -/
def barelyShort : TypesOptions where
  config := dotted 2041 "wrangler.toml"
  environment := none
  format := some .modules
  dryRun := true
  directory := "."

theorem isAbsolute_barelyShort : ¬ isAbsolute barelyShort.config := by
  rw [barelyShort, dotted, String.append_assoc, isAbsolute_append (by decide)]
  decide

theorem byteSize_barelyShort : Text.byteSize barelyShort.config.toList = 4095 := by
  have hname : Text.byteSize "wrangler.toml".toList = 13 := by decide
  rw [barelyShort, byteSize_dotted, hname]

theorem usable_barelyShort : usable barelyShort.config := by
  have hnul : '\x00' ∉ (dotted 2041 "wrangler.toml").toList := nul_not_mem_dotted (by decide) 2041
  simp only [usable, byteSize_barelyShort, decide_eq_true_eq]
  exact ⟨by decide, hnul⟩

theorem not_usable_rooted_barelyShort : ¬ usable (Storage.rooted ["worker"] barelyShort.config) := by
  intro hu
  rw [Storage.rooted, join_of_relative isAbsolute_barelyShort] at hu
  split_ifs at hu with hslash
  · rcases hslash with hslash | hslash <;> revert hslash <;> decide
  · simp only [usable, String.toList_append, Text.byteSize_append, byteSize_barelyShort,
      decide_eq_true_eq] at hu
    have hlong : longestPath = 4095 := rfl
    have hslash : Text.byteSize "/".toList = 1 := by decide
    omega

/-- A manifest that cannot be read is what the run fails on. -/
theorem status_of_unreadable {now : Instant} (h : t.readText? here o.config = none) :
    (runTypes t here now o).status = 1 := by
  rw [runTypes, plan, Project.openAt, h]
  rfl

/-- A dry run for the top level with a given form needs nothing but the manifest. -/
theorem status_of_openAt {now : Instant} {project : Project} {format : Script.Format}
    (h : Project.openAt t here o.config = .ok project) (henvironment : o.environment = none)
    (hformat : o.format = some format) (hdry : o.dryRun) : (runTypes t here now o).status = 0 := by
  have hplan : plan t here o = .ok ⟨Definitions.ofBindings project.manifest.bindings, format⟩ := by
    rw [plan, h, henvironment, hformat]
    rfl
  rw [runTypes, hplan]
  simp only [hdry, if_true]
  rfl

/-- A path that the system takes can be too long from the root. -/
theorem status_ne_barelyShort : workerTree.WellFormed ∧
    workerTree.get? ["worker"] = some .directory ∧ barelyShort.config ≠ "" ∧
    ¬ isAbsolute barelyShort.config ∧
    (runTypes workerTree ["worker"] ⟨0, false⟩ barelyShort).status = 0 ∧
    (runTypes workerTree ["worker"] ⟨0, false⟩ (barelyShort.rooted ["worker"])).status = 1 := by
  have hhere : workerTree.get? ["worker"] = some .directory := by decide
  have hne : barelyShort.config ≠ "" := by
    intro hempty
    have hsize := byteSize_barelyShort
    rw [hempty] at hsize
    cases hsize
  have hresolve : workerTree.resolve ["worker"] barelyShort.config =
      workerTree.resolve ["worker"] "wrangler.toml" := by
    have hwalk := walk_dotted hhere rfl 2041 "wrangler.toml"
    rw [resolve_of_usable hne usable_barelyShort, resolve_of_usable (by decide) (by decide),
      startOf, if_neg isAbsolute_barelyShort, startOf, if_neg (by decide)]
    exact hwalk
  have hread : workerTree.readText? ["worker"] barelyShort.config =
      some "main = \"w.js\"\n[vars]\nA = 1\n" := by
    rw [readText?_congr hresolve]
    decide +kernel
  obtain ⟨m, hparse⟩ : ∃ m, parse "main = \"w.js\"\n[vars]\nA = 1\n" "" = .ok m := by
    have hsome : (parse "main = \"w.js\"\n[vars]\nA = 1\n" "").toOption.isSome := by decide +kernel
    cases hparse : parse "main = \"w.js\"\n[vars]\nA = 1\n" "" with
    | error problem =>
      rw [hparse] at hsome
      cases hsome
    | ok m => exact ⟨m, rfl⟩
  have hread' : workerTree.readText? ["worker"] (barelyShort.rooted ["worker"]).config = none := by
    rw [TypesOptions.rooted_config, readText?, FileTree.read, find_of_unusable (rooted_ne_empty isAbsolute_barelyShort)
      not_usable_rooted_barelyShort]
    rfl
  exact ⟨workerTree_wellFormed, hhere, hne, isAbsolute_barelyShort,
    status_of_openAt (openAt_of_parse hread hparse) rfl rfl rfl, status_of_unreadable hread'⟩

/-! ## A directory behind one that is shut -/

/-- A tree with a manifest in a directory that lies in one that refuses to be searched. -/
def gatedTree : FileTree where
  entries := [
    (["gate"], .directory),
    (["gate", "site"], .directory),
    (["gate", "site", "wrangler.toml"], .file (Text.utf8 "[vars]\nA = 1\n"))]
  refusals := [(["gate"], .search)]

/-- A request for this manifest from its own directory. -/
def behindGate : TypesOptions where
  config := "wrangler.toml"
  environment := none
  format := some .modules
  dryRun := true
  directory := "."

theorem gatedTree_wellFormed : gatedTree.WellFormed :=
  wellFormed_of_forall (by decide +kernel) (by decide +kernel)

theorem behindGate_measured : behindGate.Measured gatedTree ["gate", "site"] where
  config := by decide
  target :=
    { target := by decide
      parent := by
        have hparent : parent? (join "." fileName) = some "." := by decide
        have hparent' : parent? (join (Storage.rooted ["gate", "site"] ".") fileName) =
            some "/gate/site" := by decide
        intro above above' h h'
        rw [behindGate, hparent] at h
        rw [behindGate, hparent'] at h'
        cases h
        cases h'
        decide }
  entry := by
    intro project main hopen hmain
    have hnone : (Project.openAt gatedTree ["gate", "site"] behindGate.config).toOption.map
        (·.manifest.main) = some none := by
      decide +kernel
    rw [hopen] at hnone
    have habsent : project.manifest.main = none := by simpa [Except.toOption] using hnone
    rw [habsent] at hmain
    cases hmain

/-- Who stands behind a directory that is shut does not come there from the root. -/
theorem status_ne_behindGate : gatedTree.WellFormed ∧
    gatedTree.get? ["gate", "site"] = some .directory ∧ behindGate.config ≠ "" ∧
    ¬ isAbsolute behindGate.config ∧ behindGate.Measured gatedTree ["gate", "site"] ∧
    (runTypes gatedTree ["gate", "site"] ⟨0, false⟩ behindGate).status = 0 ∧
    (runTypes gatedTree ["gate", "site"] ⟨0, false⟩
      (behindGate.rooted ["gate", "site"])).status = 1 :=
  ⟨gatedTree_wellFormed, by decide, by decide, by decide, behindGate_measured, by decide +kernel,
    by decide +kernel⟩

/-- Without the conditions on lengths and on the way from the root it is not so. -/
theorem status_ne_rooted :
    (workerTree.WellFormed ∧ workerTree.get? ["worker"] = some .directory ∧
      workerTree.Reachable ["worker"] ∧ barelyShort.config ≠ "" ∧ ¬ isAbsolute barelyShort.config ∧
      (runTypes workerTree ["worker"] ⟨0, false⟩ barelyShort).status = 0 ∧
      (runTypes workerTree ["worker"] ⟨0, false⟩ (barelyShort.rooted ["worker"])).status = 1) ∧
    (gatedTree.WellFormed ∧ gatedTree.get? ["gate", "site"] = some .directory ∧
      behindGate.Measured gatedTree ["gate", "site"] ∧ behindGate.config ≠ "" ∧
      ¬ isAbsolute behindGate.config ∧
      (runTypes gatedTree ["gate", "site"] ⟨0, false⟩ behindGate).status = 0 ∧
      (runTypes gatedTree ["gate", "site"] ⟨0, false⟩
        (behindGate.rooted ["gate", "site"])).status = 1) := by
  obtain ⟨hwf, hhere, hne, hrel, hstatus, hstatus'⟩ := status_ne_barelyShort
  obtain ⟨gwf, ghere, gne, grel, gmeasured, gstatus, gstatus'⟩ := status_ne_behindGate
  exact ⟨⟨hwf, hhere, fun above _ _ => rfl, hne, hrel, hstatus, hstatus'⟩,
    gwf, ghere, gmeasured, gne, grel, gstatus, gstatus'⟩

end WorkerEnv.Command
