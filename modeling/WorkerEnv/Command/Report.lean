/-
# WorkerEnv.Command.Report -- what is printed on success

A report is a list of lines; an entry that holds line feeds takes several. `bindingReport` lists the
bindings by kind, kinds without bindings left out. `previewReport` shows the file, and
`outcomeReport` says what became of it.
-/

import WorkerEnv.Bindings.Collection
import WorkerEnv.Generation.Writer
import WorkerEnv.Text.Blank

namespace WorkerEnv.Command

/-- Lines as they are printed. -/
def printed (lines : List String) : String := String.join (lines.map (· ++ "\n"))

/-- A line with a name and a value. -/
def labelled (key value : String) : String := key ++ ": " ++ value

/-! ## Checking -/

/-- The kinds that have bindings, with their names. -/
def groups (b : Bindings) : List (Kind × List String) :=
  (Kind.all.map fun kind => (kind, b.names kind)).filter (!·.2.isEmpty)

/-- The lines about one kind. -/
def groupLines (group : Kind × List String) : List String :=
  ["", group.1.label ++ " (" ++ group.1.place ++ "):"] ++ group.2.map ("  - " ++ ·)

/-- The line that is printed when there is nothing to list. -/
def nothingDeclared : String := "No bindings declared."

/-- The lines about bindings and rules. -/
def bindingLines (b : Bindings) : List String :=
  if (groups b).isEmpty && b.rules.isEmpty then [nothingDeclared]
  else
    (groups b).flatMap groupLines ++
      if b.rules.isEmpty then [] else ["", labelled "module rules" (toString b.rules.length)]

/-- The report on a manifest that is valid. -/
def bindingReport (config : String) (name environment : Option String) (b : Bindings) :
    List String :=
  ["✓ " ++ config ++ " is valid", ""] ++ (name.map (labelled "name")).toList ++
    (environment.map (labelled "env")).toList ++ bindingLines b

/-! ## Generating -/

/-- A count with a noun. -/
def counted (n : Nat) (noun : String) : String :=
  toString n ++ " " ++ noun ++ if n = 1 then "" else "s"

/-- How much is declared, for which form and environment. -/
def tally (d : Declaration.Definitions) (format : Script.Format)
    (environment : Option String) : String :=
  counted d.members.length "binding" ++ ", " ++ counted d.modules.length "module declaration" ++
    " (" ++ format.name ++ (environment.map (", env " ++ ·)).getD "" ++ ")"

/-- A line that divides parts of a report. -/
def ruled (label : String) : String := "── " ++ label ++ " ──"

/-- The report of a dry run. -/
def previewReport (path content tally : String) : List String :=
  [ruled path, content, ruled "Summary", tally]

/-- The report on an outcome, with the messages to the log. -/
def outcomeReport (told : List String) (tally : String) : Generation.Outcome → List String
  | .written path =>
    told.map (fun text => String.ofList (Text.trimEnd text.toList)) ++
      ["Generated:", "  + " ++ path ++ " - " ++ tally]
  | .untouched => ["No bindings or module rules found; nothing to generate."]

end WorkerEnv.Command
