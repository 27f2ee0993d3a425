/-
# WorkerEnv.Text.Lines -- the lines of a text

A line ends with a line feed, which belongs to it; the last line may lack one. `fullLines` cuts a
text into its lines and loses nothing, `lines` then drops each line's ending, which is a line feed
or a carriage return with a line feed. A carriage return that no line feed follows is an ordinary
character.
-/

namespace WorkerEnv.Text

/-- The lines of a text, each with its line feed. -/
def fullLines : List Char → List (List Char)
  | [] => []
  | c :: cs =>
    if c = '\n' then [c] :: fullLines cs
    else
      match fullLines cs with
      | [] => [[c]]
      | l :: ls => (c :: l) :: ls

/-- A line without its ending. -/
def withoutEnding (line : List Char) : List Char :=
  match line.reverse with
  | '\n' :: '\r' :: r => r.reverse
  | '\n' :: r => r.reverse
  | _ => line

/-- The lines of a text without their endings. -/
def lines (s : List Char) : List (List Char) := (fullLines s).map withoutEnding

theorem flatten_fullLines (s : List Char) : (fullLines s).flatten = s := by
  induction s with
  | nil => rfl
  | cons c cs ih =>
    simp only [fullLines]
    split
    · simp [ih]
    · cases h : fullLines cs with
      | nil => simp_all
      | cons l ls => simp_all

/-- Characters without a line feed and the line feed after them are the first line. -/
theorem fullLines_append {line : List Char} (h : '\n' ∉ line) (rest : List Char) :
    fullLines (line ++ '\n' :: rest) = (line ++ ['\n']) :: fullLines rest := by
  induction line with
  | nil => simp [fullLines]
  | cons c line ih =>
    obtain ⟨hc, hline⟩ := not_or.1 (mt List.mem_cons.2 h)
    rw [List.cons_append, fullLines, if_neg (Ne.symm hc), ih hline, List.cons_append]

end WorkerEnv.Text
