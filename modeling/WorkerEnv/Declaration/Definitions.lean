/-
# WorkerEnv.Declaration.Definitions -- from bindings to declarations

Every binding becomes a member of the environment, in the order of `Bindings.pairs`, with two
exceptions: a variable gets the type of its value, and all bindings for log forwarding together
become one member. An import rule becomes one module declaration per glob, if its module type is
one that has a value to import. Equal bindings give equal definitions, and nothing here can fail.
-/

import WorkerEnv.Bindings.Collection
import WorkerEnv.Declaration.Literal
import WorkerEnv.Declaration.Node
import WorkerEnv.Text.Search

namespace WorkerEnv.Declaration

/-! ## Types -/

/-- How the members of a kind get their types. -/
inductive Typing where
  /-- Every binding has this type. -/
  | uniform (type : String)
  /-- Every binding has the type of its value. -/
  | ofValue
  /-- All bindings together are one member. -/
  | joint (name type : String)
  deriving DecidableEq, Repr

/-- How the members of a kind get their types. -/
def typing : Kind → Typing
  | .kvNamespace => .uniform "KVNamespace"
  | .plainVar => .ofValue
  | .durableObject => .uniform "DurableObjectNamespace"
  | .r2Bucket => .uniform "R2Bucket"
  | .d1Database => .uniform "D1Database"
  | .service => .uniform "Fetcher"
  | .analyticsDataset => .uniform "AnalyticsEngineDataset"
  | .dispatchNamespace => .uniform "DispatchNamespace"
  | .logForwarding => .joint "LOGFWDR_SCHEMA" "any"
  | .dataBlob => .uniform "ArrayBuffer"
  | .textBlob => .uniform "string"
  | .wasmModule => .uniform "WebAssembly.Module"
  | .unsafeBinding => .uniform "any"
  | .queueProducer => .uniform "Queue"
  | .sendEmail => .uniform "SendEmail"
  | .vectorizeIndex => .uniform "VectorizeIndex"
  | .hyperdrive => .uniform "Hyperdrive"
  | .mtlsCertificate => .uniform "Fetcher"

/-- The type of the value that a module of this type exports, for the types that are no code. -/
def importType? : ModuleType → Option String
  | .text => some "string"
  | .data => some "ArrayBuffer"
  | .compiledWasm => some "WebAssembly.Module"
  | .esModule => none
  | .commonJS => none
  | .other => none

/-! ## Definitions -/

/-- What a file declares. -/
structure Definitions where
  members : List Member
  modules : List AmbientModule
  deriving DecidableEq, Repr

namespace Definitions

/-- Whether there is nothing to declare. -/
def isEmpty (d : Definitions) : Bool := d.members.isEmpty && d.modules.isEmpty

/-- The members as they are written. -/
def memberTexts (d : Definitions) : List String := d.members.map Member.text

/-- The members that the bindings of one kind become. -/
def membersOf (b : Bindings) (kind : Kind) : List Member :=
  match typing kind with
  | .uniform type => (b.names kind).map (⟨·, type⟩)
  | .ofValue => b.vars.map fun (name, v) => ⟨name, pinnedType v⟩
  | .joint name type => if (b.names kind).isEmpty then [] else [⟨name, type⟩]

/-- The text after the last dot of a glob, or the whole glob if it has none. -/
def suffix (glob : String) : String :=
  match Text.cutLast? ['.'] glob.toList with
  | some (_, rest) => String.ofList rest
  | none => glob

/-- The module declarations that a rule becomes. -/
def modulesOf (rule : Rule) : List AmbientModule :=
  match importType? rule.type with
  | some type => rule.globs.map fun glob => ⟨"*." ++ suffix glob, type⟩
  | none => []

/-- The definitions for bindings and rules. -/
def ofBindings (b : Bindings) : Definitions where
  members := Kind.all.flatMap (membersOf b)
  modules := b.rules.flatMap modulesOf

end Definitions

end WorkerEnv.Declaration
