/-
# WorkerEnv.Proofs.Declaration.Shape -- the declaration file, written out

The two forms of the body differ in the heading of the first element, in one line before it, and in
one word before each member. The texts of the members and all that comes after them are the same.
Whatever the names, types and patterns are, the last two characters are a closing brace and a line
feed, and nothing of the body is blank at its end but that line feed. The header has no line feed,
so the file without its first line is the body.
-/

import WorkerEnv.Declaration.File
import WorkerEnv.Proofs.Layout.Outline
import WorkerEnv.Text.Blank
import WorkerEnv.Text.Lines

namespace WorkerEnv.Declaration

open Layout

/-! ## Texts of declarations -/

/-- A line one level deep. -/
def innerLine (s : String) : String := "  " ++ s ++ "\n"

/-- A heading with lines in braces. -/
def bracedText (heading : String) (lines : List String) : String :=
  if lines = [] then heading ++ " \x7b\x7d\n"
  else heading ++ " \x7b\n" ++ String.join (lines.map innerLine) ++ "\x7d\n"

/-- A module declaration. -/
def moduleText (m : AmbientModule) : String :=
  bracedText ("declare module \"" ++ m.pattern ++ "\"")
    ["const value: " ++ m.type ++ ";", "export default value;"]

/-- Module declarations, each after a blank line. -/
def modulesText (ms : List AmbientModule) : String :=
  String.join (ms.map fun m => "\n" ++ moduleText m)

theorem lineText_outer (s : String) : lineText Draft.standardWidth (0, s) = s ++ "\n" := by
  rw [lineText]
  exact congrArg (· ++ "\n") String.empty_append

theorem linesText_inner (lines : List String) :
    linesText Draft.standardWidth (lines.map (1, ·)) = String.join (lines.map innerLine) := by
  rw [linesText, List.map_map]
  rfl

theorem outlines_lines (level : Nat) (lines : List String) :
    outlines level (lines.map Block.line) = lines.map (level, ·) := by
  induction lines with
  | nil => rfl
  | cons s lines ih =>
    rw [List.map_cons, outlines, ih, Block.outline, List.singleton_append, List.map_cons]

/-- Lines in braces at the outermost level. -/
theorem elementText_nested (opening : String) (lines : List String) :
    Sheet.elementText [.nested opening (lines.map Block.line) (some "\x7d")] =
      opening ++ "\n" ++ String.join (lines.map innerLine) ++ "\x7d\n" := by
  rw [Sheet.elementText, outlines, outlines, Block.outline, outlines_lines, List.append_nil,
    linesText_append, linesText_cons, lineText_outer, linesText_inner, Option.toList_some,
    List.map_singleton, linesText_cons, lineText_outer, linesText_nil, String.append_empty]
  rfl

theorem elementText_braced (heading : String) (lines : List String) :
    Sheet.elementText (braced heading lines) = bracedText heading lines := by
  cases lines with
  | nil =>
    rw [braced, bracedText, if_pos rfl, Sheet.elementText, outlines, outlines, Block.outline,
      List.append_nil, linesText_cons, lineText_outer, linesText_nil, String.append_empty]
    exact String.append_assoc
  | cons s lines =>
    have hopening : heading ++ " \x7b" ++ "\n" = heading ++ " \x7b\n" := String.append_assoc
    have hblock : braced heading (s :: lines) =
        [.nested (heading ++ " \x7b") ((s :: lines).map Block.line) (some "\x7d")] := rfl
    rw [hblock, elementText_nested, hopening, bracedText, if_neg (List.cons_ne_nil _ _)]

theorem elementText_ambient (m : AmbientModule) :
    Sheet.elementText (Node.ambient m).toBlocks = moduleText m := by
  have hquote : "declare module " ++ quoteText ++ m.pattern ++ quoteText =
      "declare module \"" ++ m.pattern ++ "\"" := rfl
  rw [moduleText, ← hquote, ← elementText_braced, Node.toBlocks, AmbientModule.toBlocks, braced]
  · rfl
  · simp

/-! ## The body -/

/-- What stands before the members. -/
def preamble : Script.Format → String
  | .modules => ""
  | .serviceWorker => "export \x7b\x7d;\n"

/-- The heading of the members. -/
def heading : Script.Format → String
  | .modules => "interface Env"
  | .serviceWorker => "declare global"

/-- The lines of the members. -/
def memberLines (members : List Member) : Script.Format → List String
  | .modules => members.map Member.text
  | .serviceWorker => members.map fun m => "const " ++ m.text

theorem elementText_environment (members : List Member) (format : Script.Format) :
    Sheet.elementText (environment members format).toBlocks =
      preamble format ++ bracedText (heading format) (memberLines members format) := by
  cases format with
  | modules =>
    rw [← elementText_braced, preamble, String.empty_append, environment, Node.toBlocks]
    rfl
  | serviceWorker =>
    have hexport : (Node.verbatim "export \x7b\x7d;").toBlocks = [.line "export \x7b\x7d;"] := by
      rw [Node.toBlocks]
      rfl
    rw [environment, Node.toBlocks, sequenceBlocks, sequenceBlocks, sequenceBlocks, hexport,
      List.append_nil, ← elementText_braced, Node.toBlocks, Sheet.elementText, List.singleton_append,
      outlines, linesText_append, Block.outline, linesText_cons, linesText_nil, lineText_outer]
    rfl

theorem body_eq (d : Definitions) (format : Script.Format) :
    body d format =
      preamble format ++ bracedText (heading format) (memberLines d.members format) ++
        modulesText d.modules := by
  have hmodules : modulesText d.modules = String.join
      ((d.modules.map fun m => (Node.ambient m).toBlocks).map
        fun e => "\n" ++ Sheet.elementText e) := by
    rw [modulesText, List.map_map]
    congr 1
    apply List.map_congr_left
    intro m _
    rw [Function.comp_apply, elementText_ambient]
  rw [hmodules, ← elementText_environment, ← Sheet.text_cons]
  rfl

/-- Both forms of the body written out. They have the same members in the same order, and what
follows these is the same text. -/
theorem body_account (d : Definitions) :
    body d .modules =
      bracedText "interface Env" (d.members.map Member.text) ++ modulesText d.modules ∧
    body d .serviceWorker =
      "export \x7b\x7d;\n" ++ bracedText "declare global" (d.members.map ("const " ++ ·.text)) ++
        modulesText d.modules := by
  constructor
  · rw [body_eq, preamble, String.empty_append]
    rfl
  · exact body_eq d .serviceWorker

example : body ⟨[⟨"CACHE", "KVNamespace"⟩], [⟨"*.txt", "string"⟩]⟩ .serviceWorker =
    "export \x7b\x7d;\ndeclare global \x7b\n  const CACHE: KVNamespace;\n\x7d\n\n" ++
      "declare module \"*.txt\" \x7b\n  const value: string;\n  export default value;\n\x7d\n" := by
  decide +kernel

/-! ## The end of the body -/

/-- The text ends with a closing brace on its last line. -/
def Closes (s : String) : Prop := ∃ before, s = before ++ "\x7d\n"

theorem Closes.append {s : String} (h : Closes s) (before : String) : Closes (before ++ s) := by
  obtain ⟨middle, rfl⟩ := h
  exact ⟨before ++ middle, String.append_assoc.symm⟩

theorem closes_bracedText (heading : String) (lines : List String) :
    Closes (bracedText heading lines) := by
  rw [bracedText]
  split
  · exact Closes.append ⟨" \x7b", rfl⟩ heading
  · exact ⟨_, rfl⟩

theorem closes_append_modulesText {s : String} (h : Closes s) (ms : List AmbientModule) :
    Closes (s ++ modulesText ms) := by
  induction ms generalizing s with
  | nil =>
    rw [modulesText, List.map_nil, String.join_nil, String.append_empty]
    exact h
  | cons m ms ih =>
    rw [modulesText, List.map_cons, String.join_cons, ← String.append_assoc]
    exact ih (((closes_bracedText _ _).append "\n").append s)

theorem closes_body (d : Definitions) (format : Script.Format) : Closes (body d format) := by
  rw [body_eq]
  exact closes_append_modulesText ((closes_bracedText _ _).append _) _

/-- All that is blank at the end is the line feed. -/
theorem Closes.trimEnd {s : String} (h : Closes s) :
    String.ofList (Text.trimEnd s.toList) ++ "\n" = s := by
  obtain ⟨before, rfl⟩ := h
  have hreverse : (before ++ "\x7d\n").toList.reverse = '\n' :: '\x7d' :: before.toList.reverse := by
    simp [String.toList_append]
  have htrim : Text.trimEnd (before ++ "\x7d\n").toList = before.toList ++ ['\x7d'] := by
    rw [Text.trimEnd, hreverse, List.dropWhile_cons_of_pos (by decide),
      List.dropWhile_cons_of_neg (by decide)]
    simp
  apply String.toList_inj.1
  rw [htrim]
  simp [String.toList_append]

/-! ## The header -/

/-- A text without its first line. -/
def withoutFirstLine (s : String) : String := String.ofList (Text.fullLines s.toList).tail.flatten

theorem newline_notMem_header (time : Instant) : '\n' ∉ (header time).toList := by
  have htext := time.newline_notMem_text
  have hmarker : '\n' ∉ marker.toList := by decide
  simp [header, String.toList_append, htext, hmarker]

theorem withoutFirstLine_content (d : Definitions) (format : Script.Format) (time : Instant) :
    withoutFirstLine (content d format time) = body d format := by
  have hcontent : (content d format time).toList =
      (header time).toList ++ '\n' :: (body d format).toList := by
    simp [content, String.toList_append]
  rw [withoutFirstLine, hcontent, Text.fullLines_append (newline_notMem_header time),
    List.tail_cons, Text.flatten_fullLines, String.ofList_toList]

end WorkerEnv.Declaration
