/-
# WorkerEnv.Declaration.Node -- declarations

The declarations that a file is made of: an interface, a group of global constants, an ambient
module, verbatim code. A node is written by way of its blocks and in no other way. An interface or a
group without members closes on its first line.
-/

import WorkerEnv.Layout.Block
import WorkerEnv.Text.Lines

namespace WorkerEnv.Declaration

open Layout

/-- A name with its type. -/
structure Member where
  name : String
  type : String
  deriving DecidableEq, Repr

/-- A member as it is written. -/
def Member.text (m : Member) : String := m.name ++ ": " ++ m.type ++ ";"

/-- The type that importing a file by a pattern gives. -/
structure AmbientModule where
  pattern : String
  type : String
  deriving DecidableEq, Repr

/-- The double quote, as a string. -/
def quoteText : String := String.singleton '\x22'

/-- A module declaration. -/
def AmbientModule.toBlocks (m : AmbientModule) : List Block :=
  [.nested ("declare module " ++ quoteText ++ m.pattern ++ quoteText ++ " \x7b")
    [.line ("const value: " ++ m.type ++ ";"), .line "export default value;"] (some "\x7d")]

/-- A heading with lines in braces; the braces stay together when there are no lines. -/
def braced (heading : String) (lines : List String) : List Block :=
  match lines with
  | [] => [.line (heading ++ " \x7b\x7d")]
  | _ => [.nested (heading ++ " \x7b") (lines.map Block.line) (some "\x7d")]

/-- A declaration. -/
inductive Node where
  | interface (name : String) (members : List Member)
  | globals (members : List Member)
  | ambient (m : AmbientModule)
  /-- Lines of code as they are. -/
  | verbatim (code : String)
  | blocks (bs : List Block)
  /-- Several declarations without blank lines between them. -/
  | sequence (nodes : List Node)

mutual

/-- The blocks of a declaration. -/
def Node.toBlocks : Node → List Block
  | .interface name members => braced ("interface " ++ name) (members.map Member.text)
  | .globals members => braced "declare global" (members.map fun m => "const " ++ m.text)
  | .ambient m => m.toBlocks
  | .verbatim code => (Text.lines code.toList).map fun l => .line (String.ofList l)
  | .blocks bs => bs
  | .sequence nodes => sequenceBlocks nodes

/-- The blocks of declarations in order. -/
def sequenceBlocks : List Node → List Block
  | [] => []
  | n :: ns => n.toBlocks ++ sequenceBlocks ns

end

end WorkerEnv.Declaration
