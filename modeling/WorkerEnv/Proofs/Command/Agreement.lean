/-
# WorkerEnv.Proofs.Command.Agreement -- what is shown, written, told and printed

A request for types can be run dry or in earnest. Run dry it shows a content and leaves every tree
as it is; run in earnest it leaves that content in the declaration file, tells its body to the log
and prints the body with a summary. `Agreement` says that all of these are made of one text.
-/

import WorkerEnv.Proofs.Command.Ownership
import WorkerEnv.Proofs.Declaration.Shape

namespace WorkerEnv.Command

open Storage Storage.FileTree Declaration Generation

/-- The request, run dry. -/
def TypesOptions.dry (o : TypesOptions) : TypesOptions := { o with dryRun := true }

/-- The request, run in earnest. -/
def TypesOptions.earnest (o : TypesOptions) : TypesOptions := { o with dryRun := false }

variable {t : FileTree} {here : Location} {now : Instant} {o : TypesOptions} {p : Plan}

/-! ## The two runs -/

theorem runTypes_dry (now : Instant) (hplan : plan t here o = .ok p) :
    runTypes t here now o.dry = .success t (previewReport (filePath o.directory)
      (content p.definitions p.format now) (tally p.definitions p.format o.environment)) := by
  have hdry : plan t here o.dry = .ok p := hplan
  rw [runTypes, hdry]
  rfl

theorem runTypes_earnest (now : Instant) (hplan : plan t here o = .ok p) :
    runTypes t here now o.earnest = conclude (tally p.definitions p.format o.environment)
      (write t here o.directory p.definitions p.format now) := by
  have hearnest : plan t here o.earnest = .ok p := hplan
  rw [runTypes, hearnest]
  rfl

/-- A dry run leaves the tree as it is, also where it fails. -/
theorem runTypes_dry_tree (t : FileTree) (here : Location) (now : Instant) (o : TypesOptions) :
    (runTypes t here now o.dry).tree = t :=
  runTypes_tree t here now o.dry

/-! ## The summary -/

/-- The line about a file that has been written. -/
def summaryLine (o : TypesOptions) (p : Plan) : String :=
  "  + " ++ filePath o.directory ++ " - " ++ tally p.definitions p.format o.environment

theorem newline_mem_filePath {directory : String} :
    '\n' ∈ (filePath directory).toList ↔ '\n' ∈ directory.toList := by
  have hname : '\n' ∉ fileName.toList := by decide
  have hrelative : isAbsolute fileName = false := by decide
  rw [filePath, join, hrelative, if_neg (by simp)]
  split <;> simp [String.toList_append, hname]

theorem newline_notMem_counted (n : Nat) {noun : String} (h : '\n' ∉ noun.toList) :
    '\n' ∉ (counted n noun).toList := by
  have hdigits : '\n' ∉ Nat.toDigits 10 n := by
    intro hmem
    exact absurd (Nat.isDigit_of_mem_toDigits (by decide) (by decide) hmem) (by decide)
  rw [counted]
  split <;> simp [String.toList_append, hdigits, h]

theorem newline_mem_tally {d : Definitions} {format : Script.Format} {environment : Option String} :
    '\n' ∈ (tally d format environment).toList ↔
      ∃ name, environment = some name ∧ '\n' ∈ name.toList := by
  have hmembers : '\n' ∉ (counted d.members.length "binding").toList :=
    newline_notMem_counted _ (by decide)
  have hmodules : '\n' ∉ (counted d.modules.length "module declaration").toList :=
    newline_notMem_counted _ (by decide)
  have hformat : '\n' ∉ format.name.toList := by
    cases format <;> decide
  cases environment with
  | none => simp [tally, String.toList_append, hmembers, hmodules, hformat]
  | some name => simp [tally, String.toList_append, hmembers, hmodules, hformat]

/-- The summary is one line, unless the directory or the environment has a name of several. -/
theorem newline_mem_summaryLine :
    '\n' ∈ (summaryLine o p).toList ↔
      '\n' ∈ o.directory.toList ∨ ∃ name, o.environment = some name ∧ '\n' ∈ name.toList := by
  simp [summaryLine, String.toList_append, newline_mem_filePath, newline_mem_tally]

/-! ## Agreement -/

/-- What is shown, written, told and printed for a plan goes together. -/
structure Agreement (t : FileTree) (here : Location) (now : Instant) (o : TypesOptions) (p : Plan) :
    Prop where
  /-- The dry run shows the content under the path of the file, and then the tally. -/
  shown : runTypes t here now o.dry =
    ⟨0, "── " ++ filePath o.directory ++ " ──\n" ++ content p.definitions p.format now ++
      "\n── Summary ──\n" ++ tally p.definitions p.format o.environment ++ "\n", "", t⟩
  /-- The run in earnest leaves the content in the file, whether or not that can be read. -/
  stored : ∃ place, (runTypes t here now o.earnest).tree.find here (filePath o.directory) =
    .ok (place, .file (Text.utf8 (content p.definitions p.format now)))
  /-- The log is told the content without its first line. -/
  told : (write t here o.directory p.definitions p.format now).told =
    [withoutFirstLine (content p.definitions p.format now)]
  /-- The run in earnest prints the same and a summary. -/
  echoed : runTypes t here now o.earnest =
    ⟨0, withoutFirstLine (content p.definitions p.format now) ++ "Generated:\n" ++
      summaryLine o p ++ "\n", "", (write t here o.directory p.definitions p.format now).tree⟩
  /-- The summary is one line, unless the caller's own words are more. -/
  oneLine : '\n' ∈ (summaryLine o p).toList ↔
    '\n' ∈ o.directory.toList ∨ ∃ name, o.environment = some name ∧ '\n' ∈ name.toList
  /-- What is told holds lines for members and then module declarations. -/
  rendered : withoutFirstLine (content p.definitions p.format now) =
    preamble p.format ++
      bracedText (heading p.format) (memberLines p.definitions.members p.format) ++
      modulesText p.definitions.modules
  /-- The tally counts both. -/
  counts : tally p.definitions p.format o.environment =
    counted (memberLines p.definitions.members p.format).length "binding" ++ ", " ++
      counted p.definitions.modules.length "module declaration" ++
      " (" ++ p.format.name ++ (o.environment.map (", env " ++ ·)).getD "" ++ ")"

theorem printed_cons (s : String) (lines : List String) :
    printed (s :: lines) = s ++ "\n" ++ printed lines := by
  rw [printed, List.map_cons, String.join_cons, printed]

theorem printed_previewReport (path text summary : String) :
    printed (previewReport path text summary) =
      "── " ++ path ++ " ──\n" ++ text ++ "\n── Summary ──\n" ++ summary ++ "\n" := by
  have hsummary : "\n" ++ (ruled "Summary" ++ "\n") = "\n── Summary ──\n" := rfl
  have hruled : ruled path ++ "\n" = "── " ++ path ++ " ──\n" := String.append_assoc
  rw [previewReport, printed_cons, printed_cons, printed_cons, printed_cons, hruled, ← hsummary]
  simp only [String.append_assoc]
  rfl

/-- The body is echoed as it is: of a text that closes, only the line feed at the end is cut off,
and that is printed again. -/
theorem printed_outcomeReport {text : String} (h : Closes text) (path summary : String) :
    printed (outcomeReport [text] summary (.written path)) =
      text ++ "Generated:\n" ++ ("  + " ++ path ++ " - " ++ summary) ++ "\n" := by
  have hgenerated : "Generated:" ++ "\n" = "Generated:\n" := rfl
  rw [outcomeReport, List.map_singleton, List.singleton_append, printed_cons, h.trimEnd,
    printed_cons, printed_cons, hgenerated]
  simp only [String.append_assoc]
  rfl

theorem length_memberLines (members : List Member) (format : Script.Format) :
    (memberLines members format).length = members.length := by
  cases format <;> exact List.length_map _

theorem agreement_of_written (ht : t.WellFormed) (hplan : plan t here o = .ok p)
    (hwritten : (write t here o.directory p.definitions p.format now).result =
      .ok (.written (filePath o.directory))) :
    Agreement t here now o p := by
  have hcame := came_write ht here o.directory p.definitions p.format now
  obtain ⟨-, htold, hplaced⟩ := hcame.of_written hwritten
  have hearnest : runTypes t here now o.earnest =
      .success (write t here o.directory p.definitions p.format now).tree
        (outcomeReport [body p.definitions p.format]
          (tally p.definitions p.format o.environment) (.written (filePath o.directory))) := by
    rw [runTypes_earnest now hplan, conclude, hwritten, htold]
  have hrest := withoutFirstLine_content p.definitions p.format now
  constructor
  · rw [runTypes_dry now hplan, Result.success, printed_previewReport]
  · rw [hearnest]
    exact ⟨_, hplaced.find⟩
  · rw [hrest, htold]
  · rw [hearnest, Result.success, printed_outcomeReport (closes_body _ _), hrest, summaryLine]
  · exact newline_mem_summaryLine
  · rw [hrest, body_eq]
  · rw [tally, length_memberLines]

/-- A dry run leaves every tree as it is. Where a run in earnest writes, both runs are about one
content. -/
theorem dry_account (t : FileTree) (here : Location) (now : Instant) (o : TypesOptions) :
    (runTypes t here now o.dry).tree = t ∧
    (t.WellFormed → ∀ p, plan t here o = .ok p → ∀ path,
      (write t here o.directory p.definitions p.format now).result = .ok (.written path) →
        path = filePath o.directory ∧ Agreement t here now o p) := by
  refine ⟨runTypes_dry_tree t here now o, ?_⟩
  intro ht p hplan path hwritten
  have hcame := came_write ht here o.directory p.definitions p.format now
  obtain ⟨rfl, -, -⟩ := hcame.of_written hwritten
  exact ⟨rfl, agreement_of_written ht hplan hwritten⟩

/-- A tree with a manifest in it. -/
def manifestOnly : FileTree :=
  FileTree.empty.set ["wrangler.toml"] (.file (Text.utf8
    "[env.live.vars]\nA = 1\n[[env.live.rules]]\ntype = \"Text\"\nglobs = [\"*.txt\"]\n"))

/-- A request for an environment of this manifest. -/
def liveTypes : TypesOptions := ⟨"wrangler.toml", some "live", some .serviceWorker, false, "out"⟩

/-- What the request asks for. -/
def livePlan : Plan := ⟨⟨[⟨"A", "1"⟩], [⟨"*.txt", "string"⟩]⟩, .serviceWorker⟩

theorem manifestOnly_wellFormed : manifestOnly.WellFormed :=
  wellFormed_of_forall (by decide +kernel) (by decide +kernel)

theorem plan_liveTypes : plan manifestOnly [] liveTypes = .ok livePlan := by
  have hread : (plan manifestOnly [] liveTypes).toOption.map (fun p => (p.definitions, p.format)) =
      some (livePlan.definitions, livePlan.format) := by
    decide +kernel
  cases hplan : plan manifestOnly [] liveTypes with
  | error problem =>
    rw [hplan] at hread
    cases hread
  | ok p =>
    rw [hplan] at hread
    obtain ⟨hdefinitions, hformat⟩ := Prod.mk.inj (Option.some.inj hread)
    exact congrArg Except.ok (congrArg₂ Plan.mk hdefinitions hformat)

/-- The directory is made, the file written there, and all texts go together. -/
theorem dry_account_live : manifestOnly.WellFormed ∧
    plan manifestOnly [] liveTypes = .ok livePlan ∧
    (write manifestOnly [] liveTypes.directory livePlan.definitions livePlan.format
      ⟨0, false⟩).result = .ok (.written "out/worker-configuration.d.ts") ∧
    (runTypes manifestOnly [] ⟨0, false⟩ liveTypes.dry).tree = manifestOnly ∧
    Agreement manifestOnly [] ⟨0, false⟩ liveTypes livePlan := by
  have hwritten : (write manifestOnly [] liveTypes.directory livePlan.definitions livePlan.format
      ⟨0, false⟩).result = .ok (.written "out/worker-configuration.d.ts") := by
    decide +kernel
  obtain ⟨hdry, haccount⟩ := dry_account manifestOnly [] ⟨0, false⟩ liveTypes
  obtain ⟨-, hagreement⟩ :=
    haccount manifestOnly_wellFormed livePlan plan_liveTypes _ hwritten
  exact ⟨manifestOnly_wellFormed, plan_liveTypes, hwritten, hdry, hagreement⟩

end WorkerEnv.Command
