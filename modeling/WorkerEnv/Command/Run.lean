/-
# WorkerEnv.Command.Run -- running a command on a file tree

A run takes a tree, the current directory, the present and the arguments, and gives an exit status,
the text on standard output, a complaint for standard error, and the tree that it leaves. The
status is 0 on success, 1 if a manifest or a file is to blame, 2 if the arguments are. Whenever it is
not 0 nothing is printed on standard output.
-/

import WorkerEnv.Command.Arguments
import WorkerEnv.Command.Report
import WorkerEnv.Generation.Project
import WorkerEnv.Generation.Writer

namespace WorkerEnv.Command

open Storage Declaration Generation

/-! ## Results -/

/-- What a run comes to. -/
structure Result where
  status : Nat
  output : String
  complaint : String
  tree : FileTree

/-- What a run failed on. -/
inductive Trouble where
  | manifest (problem : Manifest.Problem)
  | storage (failure : Failure)

/-- A message with what can be done about it. -/
def Trouble.text : Trouble → String
  | .manifest problem => printed (problem.message :: problem.help?.toList)
  | .storage failure => printed (failure.message :: failure.help?.toList)

/-- A run that succeeds. -/
def Result.success (t : FileTree) (lines : List String) : Result := ⟨0, printed lines, "", t⟩

/-- A run that fails. -/
def Result.failure (t : FileTree) (trouble : Trouble) : Result := ⟨1, "", trouble.text, t⟩

/-! ## Texts -/

/-- The answer to a request for the version. -/
def versionText : String := "workertypes 0.3.0\n"

/-- The answer to a request for help, also given to arguments that are not understood. The words are
this library's own, in the place of the help that a parser of arguments would make; nothing that is
proved depends on them. -/
def usage : String := printed [
  "Generate TypeScript declarations for Worker bindings",
  "",
  "Usage: workertypes [--verbose] COMMAND",
  "",
  "Commands:",
  "  types [-c FILE] [-e NAME] [--format FORMAT] [--dry-run] [-C DIRECTORY]",
  "  check [-c FILE] [-e NAME]",
  "  completions SHELL",
  "  help [COMMAND]"]

/-- The words that complete the first argument, as a command for the shell. The text is this library's
own as well, in the place of the longer script that a parser of arguments would make; nothing that is
proved depends on it. -/
def completionScript (shell : String) : String :=
  let words := " ".intercalate commands
  if shell = "bash" then printed ["complete -W '" ++ words ++ "' workertypes"]
  else if shell = "zsh" then printed ["compctl -k '(" ++ words ++ ")' workertypes"]
  else if shell = "fish" then printed ["complete -c workertypes -a '" ++ words ++ "'"]
  else printed ["# workertypes: " ++ words]

/-! ## Commands -/

/-- What is to be generated, once everything has been read. -/
structure Plan where
  definitions : Definitions
  format : Script.Format

/-- Reads all that a request for types needs. -/
def plan (t : FileTree) (here : Location) (o : TypesOptions) : Except Manifest.Problem Plan := do
  let project ← Project.openAt t here o.config
  let bindings ← project.manifest.select o.environment
  let format ← entryFormat t here o.format project.manifest project.directory
  pure ⟨Definitions.ofBindings bindings, format⟩

/-- What a run comes to after an attempt to write. -/
def conclude (tally : String) (a : Attempt) : Result :=
  match a.result with
  | .error failure => .failure a.tree (.storage failure)
  | .ok outcome => .success a.tree (outcomeReport a.told tally outcome)

/-- Generates the declaration file, or shows it. -/
def runTypes (t : FileTree) (here : Location) (now : Instant) (o : TypesOptions) : Result :=
  match plan t here o with
  | .error problem => .failure t (.manifest problem)
  | .ok ⟨d, format⟩ =>
    let tally := tally d format o.environment
    if o.dryRun then
      .success t (previewReport (filePath o.directory) (content d format now) tally)
    else conclude tally (write t here o.directory d format now)

/-- Checks a manifest and lists its bindings. -/
def runCheck (t : FileTree) (here : Location) (o : CheckOptions) : Result :=
  let report := do
    let project ← Project.openAt t here o.config
    let bindings ← project.manifest.select o.environment
    pure (bindingReport o.config project.manifest.name o.environment bindings)
  match report with
  | .error problem => .failure t (.manifest problem)
  | .ok lines => .success t lines

/-- Runs a request. -/
def Request.run (t : FileTree) (here : Location) (now : Instant) : Request → Result
  | .types o => runTypes t here now o
  | .check o => runCheck t here o
  | .completions shell => ⟨0, completionScript shell, "", t⟩

/-- Runs a command line. -/
def run (t : FileTree) (here : Location) (now : Instant) (arguments : List String) : Result :=
  match Request.ofArguments arguments with
  | .ok request => request.run t here now
  | .error .help => ⟨0, usage, "", t⟩
  | .error .version => ⟨0, versionText, "", t⟩
  | .error .misuse => ⟨2, "", usage, t⟩

end WorkerEnv.Command
