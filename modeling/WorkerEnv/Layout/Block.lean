/-
# WorkerEnv.Layout.Block -- code before it is indented

A block is one line, or an opening line, blocks one level deeper, and perhaps a closing line.
-/

namespace WorkerEnv.Layout

/-- A piece of code without its indentation. -/
inductive Block where
  | line (text : String)
  | nested (opening : String) (inner : List Block) (closing : Option String)
  deriving Repr, Inhabited

end WorkerEnv.Layout
