/-
# WorkerEnv.Proofs.Declaration.Assembly -- declarations put together in a sheet

A sheet is filled by adding declarations, one or several at a time. Only their order matters: the
text is that of each declaration by itself, with a line feed between neighbours, also around a
declaration that has no text. It holds because blocks leave the level as it was, so a declaration is
written in the middle of a sheet as it is written on an empty draft.
-/

import WorkerEnv.Declaration.Node
import WorkerEnv.Proofs.Layout.Outline

namespace WorkerEnv.Declaration

open Layout

/-- The text of a declaration that is written by itself, on an empty draft. -/
def Node.textAlone (n : Node) : String :=
  ((Draft.empty Draft.standardWidth).blocks n.toBlocks).text

theorem elementText_toBlocks (n : Node) : Sheet.elementText n.toBlocks = n.textAlone := by
  rw [Sheet.elementText, Node.textAlone, Draft.blocks_eq, Draft.add, Draft.empty,
    String.empty_append]

/-! ## Additions -/

/-- What is added to a sheet at a time. -/
inductive Addition where
  | one (n : Node)
  | several (ns : List Node)

/-- The declarations of an addition. -/
def Addition.nodes : Addition → List Node
  | .one n => [n]
  | .several ns => ns

/-- A sheet after an addition. -/
def extended (s : Sheet) : Addition → Sheet
  | .one n => s.push n.toBlocks
  | .several ns => s.append (ns.map Node.toBlocks)

/-- The sheet that additions make, one after the other. -/
def sheetOf (additions : List Addition) : Sheet := additions.foldl extended Sheet.empty

theorem elements_extended (s : Sheet) (a : Addition) :
    (extended s a).elements = s.elements ++ a.nodes.map Node.toBlocks := by
  cases a <;> rfl

theorem elements_foldl_extended (s : Sheet) (additions : List Addition) :
    (additions.foldl extended s).elements =
      s.elements ++ (additions.flatMap Addition.nodes).map Node.toBlocks := by
  induction additions generalizing s with
  | nil => simp
  | cons a additions ih =>
    rw [List.foldl_cons, ih, elements_extended, List.flatMap_cons, List.map_append,
      List.append_assoc]

/-- A sheet has the declarations of its additions, however these were made. -/
theorem sheetOf_eq (additions : List Addition) :
    sheetOf additions = ⟨(additions.flatMap Addition.nodes).map Node.toBlocks⟩ := by
  have helements := elements_foldl_extended Sheet.empty additions
  exact congrArg Sheet.mk helements

/-! ## The text -/

theorem join_after_line_feeds (first : String) (rest : List String) :
    first ++ String.join (rest.map ("\n" ++ ·)) = "\n".intercalate (first :: rest) := by
  induction rest generalizing first with
  | nil => rw [List.map_nil, String.join_nil, String.append_empty, String.intercalate_singleton]
  | cons second rest ih =>
    rw [List.map_cons, String.join_cons, String.append_assoc, ih, String.intercalate_cons_cons,
      String.append_assoc]

theorem text_toBlocks (nodes : List Node) :
    (Sheet.mk (nodes.map Node.toBlocks)).text = "\n".intercalate (nodes.map Node.textAlone) := by
  cases nodes with
  | nil => rfl
  | cons n nodes =>
    have hrest : (nodes.map Node.toBlocks).map (fun e => "\n" ++ Sheet.elementText e) =
        (nodes.map Node.textAlone).map ("\n" ++ ·) := by
      rw [List.map_map, List.map_map]
      apply List.map_congr_left
      intro m _
      rw [Function.comp_apply, Function.comp_apply, elementText_toBlocks]
    rw [List.map_cons, Sheet.text_cons, hrest, elementText_toBlocks, join_after_line_feeds,
      List.map_cons]

/-- The text of a sheet is that of its declarations, each written by itself, with line feeds between
them. It is the same if they are added one by one or all at once. A declaration more adds only a
line feed and its own text, and the first one only its text. -/
theorem assembly_account (additions : List Addition) :
    let nodes := additions.flatMap Addition.nodes
    (sheetOf additions).text = "\n".intercalate (nodes.map Node.textAlone) ∧
    (sheetOf (nodes.map .one)).text = (sheetOf additions).text ∧
    (sheetOf [.several nodes]).text = (sheetOf additions).text ∧
    ∀ n, (extended (sheetOf additions) (.one n)).text =
      if nodes = [] then n.textAlone else (sheetOf additions).text ++ ("\n" ++ n.textAlone) := by
  intro nodes
  have htext : (sheetOf additions).text = "\n".intercalate (nodes.map Node.textAlone) := by
    rw [sheetOf_eq, text_toBlocks]
  refine ⟨htext, ?_, ?_, ?_⟩
  · have hnodes : (nodes.map Addition.one).flatMap Addition.nodes = nodes := by
      rw [List.flatMap_map]
      exact List.flatMap_singleton' nodes
    rw [sheetOf_eq, sheetOf_eq, hnodes]
  · have hnodes : [Addition.several nodes].flatMap Addition.nodes = nodes :=
      List.flatMap_singleton ..
    rw [sheetOf_eq, sheetOf_eq, hnodes]
  · intro n
    have hmore : (extended (sheetOf additions) (.one n)).text =
        "\n".intercalate (nodes.map Node.textAlone ++ [n.textAlone]) := by
      rw [sheetOf_eq, ← List.map_singleton, ← List.map_append, ← text_toBlocks, List.map_append]
      rfl
    rw [hmore, htext]
    split
    · next hnil => rw [hnil, List.map_nil, List.nil_append, String.intercalate_singleton]
    · next hcons =>
      have htexts : nodes.map Node.textAlone ≠ [] := by simpa using hcons
      rw [String.intercalate_append_of_ne_nil htexts (List.cons_ne_nil _ _),
        String.intercalate_singleton, String.append_assoc]

example : (sheetOf [.one (.verbatim "a"), .several [.blocks [], .interface "Env" []]]).text =
    "a\n\n\ninterface Env \x7b\x7d\n" := by
  decide +kernel

end WorkerEnv.Declaration
