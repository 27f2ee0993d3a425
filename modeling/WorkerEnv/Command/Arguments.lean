/-
# WorkerEnv.Command.Arguments -- what the command line asks for

Arguments are read from left to right, and the first thing that settles the matter wins: a mistake,
or a request for help or the version. An option is long (`--config FILE`, `--config=FILE`) or short
(`-c FILE`, `-cFILE`, `-c=FILE`), short flags may be run together, and nothing may be given twice.
A word that begins with a dash, other than a dash alone, is never a value. After two dashes there are
no more options.
-/

import WorkerEnv.Script.Format
import WorkerEnv.Text.Search

namespace WorkerEnv.Command

/-! ## Options -/

/-- Why there is nothing to run. -/
inductive Stop where
  | help
  | version
  /-- The arguments are wrong. -/
  | misuse
  deriving DecidableEq, Repr

/-- What an option does. -/
inductive Effect where
  | flag
  /-- It takes a value of which the test holds. -/
  | value (accepts : String → Bool)
  | stop (reason : Stop)

/-- An option: its names and what it does. -/
structure Switch where
  long : String
  short : Option Char
  effect : Effect

/-- The options that were given, by long name, with their values. -/
abbrev Settings := List (String × String)

/-- Gives an option its value, once. -/
def assign (given : Settings) (o : Switch) (v : String) : Except Stop Settings :=
  let fine :=
    match o.effect with
    | .value accepts => accepts v
    | _ => true
  if fine && (given.lookup o.long).isNone then .ok (given ++ [(o.long, v)]) else .error .misuse

/-- Whether a word can only be an option. -/
def isOption (word : String) : Bool := word.toList.head? == some '-' && word != "-"

/-- A word read as options: the settings, and the option whose value is still to come. -/
abbrev Reading := Settings × Option Switch

/-- The text after an equals sign, or the whole text. -/
def afterEquals : List Char → List Char
  | '=' :: r => r
  | s => s

/-- Reads short options that are run together. -/
def shortOptions (table : List Switch) (given : Settings) : List Char → Except Stop Reading
  | [] => .ok (given, none)
  | c :: cs =>
    match table.find? (·.short == some c) with
    | none => .error .misuse
    | some o =>
      match o.effect with
      | .stop reason => .error reason
      | .flag => (assign given o "").bind (shortOptions table · cs)
      | .value _ =>
        if cs.isEmpty then .ok (given, some o)
        else (assign given o (String.ofList (afterEquals cs))).map (·, none)

/-- Reads a long option, with its value if that is attached. -/
def longOption (table : List Switch) (given : Settings) (s : List Char) : Except Stop Reading :=
  let name := String.ofList (s.takeWhile (· != '='))
  let attached :=
    match s.dropWhile (· != '=') with
    | [] => none
    | _ :: v => some (String.ofList v)
  match table.find? (·.long == name) with
  | none => .error .misuse
  | some o =>
    match o.effect, attached with
    | .stop reason, none => .error reason
    | .flag, none => (assign given o "").map (·, none)
    | .value _, none => .ok (given, some o)
    | .value _, some v => (assign given o v).map (·, none)
    | _, some _ => .error .misuse

/-- Reads a word that begins with a dash. -/
def option (table : List Switch) (given : Settings) (word : String) : Except Stop Reading :=
  match word.toList with
  | '-' :: '-' :: s => longOption table given s
  | _ :: s => shortOptions table given s
  | [] => .error .misuse

/-- The options up to the first other word. -/
structure Scan where
  given : Settings
  rest : List String
  /-- Whether two dashes have ended the options. -/
  closed : Bool

/-- Reads options up to the first other word. -/
def scan (table : List Switch) (given : Settings) : List String → Except Stop Scan
  | [] => .ok ⟨given, [], false⟩
  | word :: rest =>
    if word = "--" then .ok ⟨given, rest, true⟩
    else if !isOption word then .ok ⟨given, word :: rest, false⟩
    else
      match option table given word, rest with
      | .error reason, _ => .error reason
      | .ok (given, none), rest => scan table given rest
      | .ok (_, some _), [] => .error .misuse
      | .ok (given, some o), v :: rest =>
        if isOption v then .error .misuse
        else
          match assign given o v with
          | .error reason => .error reason
          | .ok given => scan table given rest

/-! ## The options there are -/

/-- More is written about what is going on. -/
def verbose : Switch := ⟨"verbose", some 'v', .flag⟩

/-- How the command is used. -/
def help : Switch := ⟨"help", some 'h', .stop .help⟩

/-- Which version this is. -/
def version : Switch := ⟨"version", some 'V', .stop .version⟩

/-- The path of the manifest. -/
def config : Switch := ⟨"config", some 'c', .value (· != "")⟩

/-- The name of an environment. -/
def environment : Switch := ⟨"env", some 'e', .value fun _ => true⟩

/-- The form of the entry point. -/
def format : Switch := ⟨"format", none, .value fun v => (Script.Format.ofName? v).isSome⟩

/-- The file is printed and not written. -/
def dryRun : Switch := ⟨"dry-run", none, .flag⟩

/-- The directory of the declaration file. -/
def directory : Switch := ⟨"cwd", some 'C', .value (· != "")⟩

/-! ## Requests -/

/-- What to generate. -/
structure TypesOptions where
  config : String
  environment : Option String
  format : Option Script.Format
  dryRun : Bool
  directory : String
  deriving Repr

/-- What to check. -/
structure CheckOptions where
  config : String
  environment : Option String
  deriving Repr

/-- The shells that completions can be made for. -/
def shells : List String := ["bash", "elvish", "fish", "powershell", "zsh"]

/-- What the command line asks for. -/
inductive Request where
  | types (o : TypesOptions)
  | check (o : CheckOptions)
  | completions (shell : String)
  deriving Repr

/-- The manifest that is used unless another is given. -/
def defaultConfig : String := "wrangler.toml"

/-- The directory that is used unless another is given. -/
def defaultDirectory : String := "."

/-- The settings of a command that takes nothing but options. -/
def optionsOnly (table : List Switch) (words : List String) : Except Stop Settings := do
  let s ← scan table [] words
  if s.rest.isEmpty then pure s.given else .error .misuse

/-- Reads the arguments of `types`. -/
def typesRequest (words : List String) : Except Stop Request := do
  let given ← optionsOnly [verbose, help, config, environment, format, dryRun, directory] words
  pure (.types {
    config := (given.lookup config.long).getD defaultConfig
    environment := given.lookup environment.long
    format := (given.lookup format.long).bind Script.Format.ofName?
    dryRun := (given.lookup dryRun.long).isSome
    directory := (given.lookup directory.long).getD defaultDirectory })

/-- Reads the arguments of `check`. -/
def checkRequest (words : List String) : Except Stop Request := do
  let given ← optionsOnly [verbose, help, config, environment] words
  pure (.check {
    config := (given.lookup config.long).getD defaultConfig
    environment := given.lookup environment.long })

/-- Reads the arguments of `completions`: one shell, with options before and after it. -/
def completionsRequest (words : List String) : Except Stop Request := do
  let table := [verbose, help]
  let before ← scan table [] words
  match before.rest with
  | [] => .error .misuse
  | shell :: rest =>
    if !shells.contains shell then .error .misuse
    else
      let after ← if before.closed then pure ⟨before.given, rest, true⟩
        else scan table before.given rest
      if after.rest.isEmpty then pure (.completions shell) else .error .misuse

/-- The names of the commands. -/
def commands : List String := ["types", "check", "completions", "help"]

/-- Reads the arguments of `help`: at most the name of a command. -/
def helpRequest : List String → Except Stop Request
  | [] => .error .help
  | [name] => .error (if commands.contains name then .help else .misuse)
  | _ => .error .misuse

/-- Reads a whole command line. -/
def Request.ofArguments (words : List String) : Except Stop Request := do
  let top ← scan [verbose, help, version] [] words
  match top.closed, top.rest with
  | false, name :: rest =>
    if name = "types" then typesRequest rest
    else if name = "check" then checkRequest rest
    else if name = "completions" then completionsRequest rest
    else if name = "help" then helpRequest rest
    else .error .misuse
  | _, _ => .error .misuse

end WorkerEnv.Command
