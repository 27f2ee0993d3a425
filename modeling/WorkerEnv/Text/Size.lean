/-
# WorkerEnv.Text.Size -- sizes and spans in bytes

Positions in a text are counted in bytes of its UTF-8 form. A span is a position and a size; it
`covers` a stretch of a text when the text splits there, so a span can never start or end inside a
character.
-/

namespace WorkerEnv.Text

/-- The number of bytes of the UTF-8 form of a text. -/
def byteSize (s : List Char) : Nat := s.foldr (fun c n => c.utf8Size + n) 0

@[simp]
theorem byteSize_nil : byteSize [] = 0 := rfl

@[simp]
theorem byteSize_cons (c : Char) (s : List Char) : byteSize (c :: s) = c.utf8Size + byteSize s :=
  rfl

@[simp]
theorem byteSize_append (s t : List Char) : byteSize (s ++ t) = byteSize s + byteSize t := by
  induction s with
  | nil => simp
  | cons c s ih => rw [List.cons_append, byteSize_cons, byteSize_cons, ih, Nat.add_assoc]

/-- A stretch of a text: where it starts and how long it is, both in bytes. -/
structure Span where
  offset : Nat
  size : Nat
  deriving DecidableEq, Repr

/-- The span lies in the text and the stretch `piece` is what stands there. -/
def Span.Covers (span : Span) (text piece : List Char) : Prop :=
  ∃ before rest, text = before ++ piece ++ rest ∧
    span.offset = byteSize before ∧ span.size = byteSize piece

end WorkerEnv.Text
