/-
# WorkerEnv.Toml.Document -- whole documents

A document is a sequence of lines: a `[header]`, a `[[header]]`, a key with a value (which may run
over several lines), or nothing but blanks and a comment. The keys before the first header belong to
the document itself, the others to the header above them. A byte order mark in front is skipped.
-/

import WorkerEnv.Toml.Element

namespace WorkerEnv.Toml

/-! ## Statements -/

/-- A header: of a table, or of an element of an array of tables. -/
inductive Header where
  | table (path : KeyPath)
  | element (path : KeyPath)
  deriving Repr

/-- What one line of a document says. -/
inductive Statement where
  | header (h : Header)
  | pair (path : KeyPath) (value : Value)
  | nothing

/-- A key path and the closing bracket after it. -/
def bracketedKey : Reader KeyPath := fun s => do
  let (path, r) ← dottedKey s
  match r with
  | ']' :: r => pure (path, r)
  | _ => none

/-- A key, an equals sign and a value. -/
def topPair : Reader (KeyPath × Value) := fun s => do
  let (path, r) ← dottedKey s
  match r with
  | '=' :: r =>
    let (v, r) ← element deepest (skipBlanks r)
    pure ((path, v), r)
  | _ => none

/-- The statement at the start of a line, without the end of the line. -/
def statementBody : Reader Statement
  | '[' :: '[' :: r => do
    let (path, r) ← bracketedKey r
    match r with
    | ']' :: r => pure (.header (.element path), r)
    | _ => none
  | '[' :: r => (bracketedKey r).map fun (path, r) => (.header (.table path), r)
  | [] => some (.nothing, [])
  | c :: r =>
    if c = '#' ∨ c = '\n' ∨ c = '\r' then some (.nothing, c :: r)
    else (topPair (c :: r)).map fun ((path, v), r) => (.pair path v, r)

/-- A statement with the end of its line; the last one ends the text. -/
def statement : Reader (Step Statement) := fun s => do
  let (found, r) ← statementBody (skipBlanks s)
  let (_, r) ← lineEnd r
  pure (if r.isEmpty then .last found else .more found, r)

/-! ## Sections -/

/-- A header with the keys and values under it. -/
structure Section where
  header : Header
  body : List (KeyPath × Value)

/-- The keys before the first header, and the sections. -/
def grouped : List Statement → List (KeyPath × Value) × List Section
  | [] => ([], [])
  | .nothing :: rest => grouped rest
  | .pair path v :: rest =>
    let (body, found) := grouped rest
    ((path, v) :: body, found)
  | .header h :: rest =>
    let (body, found) := grouped rest
    ([], ⟨h, body⟩ :: found)

/-- Makes a change under the last part of a path, in the table that the other parts lead to. -/
def changeAt (path : KeyPath) (change : String → Entries → Option Entries) (es : Entries) :
    Option Entries :=
  path.getLast?.bind fun key => Entries.within path.dropLast (change key) es

/-- Adds a section to what came before it. -/
def Section.addTo (s : Section) (es : Entries) : Option Entries :=
  match s.header with
  | .table path => changeAt path (fun key => Entries.openTable key s.body) es
  | .element path => changeAt path (fun key => Entries.openElement key s.body) es

/-! ## Documents -/

/-- The table that a list of statements describes. -/
def build (statements : List Statement) : Option Table := do
  let (body, found) := grouped statements
  let es ← Entries.assignAll [] body
  let es ← found.foldlM (fun es s => s.addTo es) es
  pure (finishedEntries es)

/-- The rest of a text after a byte order mark. -/
def afterMark : List Char → List Char
  | '\ufeff' :: r => r
  | s => s

/-- The table that a document describes, if it is well formed. -/
def parse (text : String) : Option Table := do
  let (statements, _) ← all statement (afterMark text.toList)
  build statements

end WorkerEnv.Toml
