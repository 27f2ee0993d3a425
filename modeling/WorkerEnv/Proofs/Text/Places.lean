/-
# WorkerEnv.Proofs.Text.Places -- lines and byte positions of a text

A line of a text is told by what stands before it and after it: it begins the text or follows a line
feed, it holds no line feed but at its end, and it lacks one only at the end of the text. The lines
that `fullLines` cuts are exactly those. A position in bytes is one where the text can be cut if it
lies in the text and not inside a character; the ends of a span that covers a stretch are such
positions, and the bytes between them are those of the stretch.
-/

import Mathlib.Data.List.Basic
import WorkerEnv.Text.Lines
import WorkerEnv.Text.Size
import WorkerEnv.Text.Utf8

namespace WorkerEnv.Text

/-! ## Lines -/

/-- A list of characters is a line of a text, between what stands before it and after it. -/
structure IsLine (text before line after : List Char) : Prop where
  eq : text = before ++ line ++ after
  ne_nil : line ≠ []
  starts : ∀ c ∈ before.getLast?, c = '\n'
  whole : '\n' ∉ line.dropLast
  ends : after ≠ [] → line.getLast? = some '\n'

theorem fullLines_of_notMem {line : List Char} (hne : line ≠ []) (h : '\n' ∉ line) :
    fullLines line = [line] := by
  induction line with
  | nil => exact absurd rfl hne
  | cons c line ih =>
    obtain ⟨hc, hline⟩ := not_or.1 (mt List.mem_cons.2 h)
    rw [fullLines, if_neg (Ne.symm hc)]
    cases line with
    | nil => rfl
    | cons d line => rw [ih (by simp) hline]

/-- Cutting at a line feed first does not change the lines. -/
theorem fullLines_append_of_starts {before : List Char} (h : ∀ c ∈ before.getLast?, c = '\n')
    (s : List Char) : fullLines (before ++ s) = fullLines before ++ fullLines s := by
  induction before with
  | nil => rfl
  | cons c before ih =>
    cases before with
    | nil =>
      obtain rfl := h c rfl
      simp [fullLines]
    | cons d before =>
      have hrest := ih h
      rw [List.cons_append, fullLines, hrest]
      conv_rhs => rw [fullLines]
      split
      · rfl
      · cases hlines : fullLines (d :: before) with
        | nil =>
          have hflatten := flatten_fullLines (d :: before)
          rw [hlines] at hflatten
          cases hflatten
        | cons l ls => rfl

theorem IsLine.fullLines_append {text before line after : List Char}
    (h : IsLine text before line after) :
    fullLines (line ++ after) = line :: fullLines after := by
  by_cases hfeed : line.getLast? = some '\n'
  · obtain ⟨w, rfl⟩ := List.getLast?_eq_some_iff.1 hfeed
    have hw : '\n' ∉ w := by simpa using h.whole
    rw [List.append_assoc, List.singleton_append, Text.fullLines_append hw]
  · obtain rfl : after = [] := by
      by_contra hafter
      exact hfeed (h.ends hafter)
    have hline : '\n' ∉ line := by
      intro hmem
      have hlast := List.dropLast_append_getLast h.ne_nil
      rw [← hlast, List.mem_append, or_iff_right h.whole, List.mem_singleton] at hmem
      exact hfeed (by rw [List.getLast?_eq_some_getLast h.ne_nil, ← hmem])
    rw [List.append_nil, fullLines_of_notMem h.ne_nil hline]
    rfl

/-- What `fullLines` cuts is a line each, with a line feed wherever another line follows, and the lines
after it are those of what follows. -/
theorem line_of_fullLines {text : List Char} {earlier later : List (List Char)} {line : List Char}
    (h : fullLines text = earlier ++ line :: later) :
    line ≠ [] ∧ '\n' ∉ line.dropLast ∧ (later ≠ [] → line.getLast? = some '\n') ∧
      fullLines later.flatten = later := by
  induction text generalizing earlier line with
  | nil => simp [fullLines] at h
  | cons c text ih =>
    rw [fullLines] at h
    split at h
    · next hc =>
      subst hc
      cases earlier with
      | nil =>
        obtain ⟨rfl, rfl⟩ := List.cons.inj h
        simp [flatten_fullLines]
      | cons l earlier => exact ih (List.cons.inj h).2
    · next hc =>
      cases hlines : fullLines text with
      | nil =>
        rw [hlines] at h
        cases earlier with
        | nil =>
          obtain ⟨rfl, rfl⟩ := List.cons.inj h
          simp [fullLines]
        | cons l earlier => simp at h
      | cons l ls =>
        rw [hlines] at h
        cases earlier with
        | nil =>
          -- The character comes before the first line of the rest.
          obtain ⟨rfl, rfl⟩ := List.cons.inj h
          have hfirst : fullLines text = [] ++ l :: ls := hlines
          obtain ⟨hne, hwhole, hends, hlater⟩ := ih hfirst
          refine ⟨by simp, ?_, ?_, hlater⟩
          · rw [List.dropLast_cons_of_ne_nil hne, List.mem_cons, not_or]
            exact ⟨Ne.symm hc, hwhole⟩
          · rwa [List.getLast?_cons_of_ne_nil hne]
        | cons l' earlier =>
          have hls : ls = earlier ++ line :: later := (List.cons.inj h).2
          have hrest : fullLines text = (l :: earlier) ++ line :: later := by
            rw [hlines, hls, List.cons_append]
          exact ih hrest

theorem IsLine.fullLines_eq {text before line after : List Char}
    (h : IsLine text before line after) :
    fullLines text = fullLines before ++ line :: fullLines after := by
  rw [h.eq, List.append_assoc, fullLines_append_of_starts h.starts, h.fullLines_append]

theorem isLine_of_fullLines {text : List Char} {earlier later : List (List Char)} {line : List Char}
    (h : fullLines text = earlier ++ line :: later) :
    IsLine text earlier.flatten line later.flatten := by
  obtain ⟨hne, hwhole, hends, -⟩ := line_of_fullLines h
  refine ⟨?_, hne, ?_, hwhole, ?_⟩
  · rw [← flatten_fullLines text, h]
    simp
  · intro c hc
    rcases List.eq_nil_or_concat earlier with rfl | ⟨front, last, rfl⟩
    · cases hc
    · -- The line before ends with a line feed, as this one follows it.
      rw [List.concat_eq_append, List.append_assoc, List.singleton_append] at h
      obtain ⟨hlast, -, hfeed, -⟩ := line_of_fullLines h
      rw [List.concat_eq_append, List.flatten_append, List.flatten_singleton,
        List.getLast?_append_of_ne_nil _ hlast, hfeed (by simp)] at hc
      exact (Option.some.inj hc).symm
  · intro hafter
    refine hends ?_
    rintro rfl
    exact hafter rfl

theorem mem_fullLines_iff {text line : List Char} :
    line ∈ fullLines text ↔ ∃ before after, IsLine text before line after := by
  constructor
  · intro h
    obtain ⟨earlier, later, hlines⟩ := List.append_of_mem h
    exact ⟨_, _, isLine_of_fullLines hlines⟩
  · rintro ⟨before, after, h⟩
    rw [h.fullLines_eq]
    simp

/-- Of two lines of a text, both are one, or one stands in what follows the other. -/
theorem IsLine.compare {text before line after before' line' after' : List Char}
    (h : IsLine text before line after) (h' : IsLine text before' line' after') :
    (before = before' ∧ line = line' ∧ after = after') ∨
      (∃ between, before' = before ++ line ++ between ∧ IsLine after between line' after') ∨
      ∃ between, before = before' ++ line' ++ between ∧ IsLine after' between line after := by
  have hlater : ∀ {b l a b' l' a' : List Char} {between : List (List Char)},
      fullLines b' = fullLines b ++ l :: between →
      fullLines a = between ++ l' :: fullLines a' →
      ∃ between, b' = b ++ l ++ between ∧ IsLine a between l' a' := by
    intro b l a b' l' a' between hbefore hafter
    refine ⟨between.flatten, ?_, ?_⟩
    · rw [← flatten_fullLines b', hbefore, List.flatten_append, List.flatten_cons,
        flatten_fullLines, List.append_assoc]
    · have hline := isLine_of_fullLines hafter
      rwa [flatten_fullLines] at hline
  have hlines := h.fullLines_eq.symm.trans h'.fullLines_eq
  rcases List.append_eq_append_iff.1 hlines with ⟨between, hbefore, hrest⟩ |
    ⟨between, hbefore, hrest⟩
  · cases between with
    | nil =>
      obtain ⟨hline, hafter⟩ := List.cons.inj hrest
      refine .inl ⟨?_, hline, ?_⟩
      · rw [← flatten_fullLines before, ← flatten_fullLines before', hbefore, List.append_nil]
      · rw [← flatten_fullLines after, ← flatten_fullLines after', hafter]
    | cons l between =>
      obtain ⟨rfl, hafter⟩ := List.cons.inj hrest
      exact .inr (.inl (hlater hbefore hafter))
  · cases between with
    | nil =>
      obtain ⟨hline, hafter⟩ := List.cons.inj hrest
      refine .inl ⟨?_, hline.symm, ?_⟩
      · rw [← flatten_fullLines before, ← flatten_fullLines before', hbefore, List.append_nil]
      · rw [← flatten_fullLines after, ← flatten_fullLines after', hafter]
    | cons l between =>
      obtain ⟨rfl, hafter⟩ := List.cons.inj hrest
      exact .inr (.inr (hlater hbefore hafter))

/-! ## Byte positions -/

theorem byteSize_pos {s : List Char} (h : s ≠ []) : 0 < byteSize s := by
  cases s with
  | nil => exact absurd rfl h
  | cons c s =>
    have hpos : 0 < c.utf8Size := c.utf8Size_pos
    rw [byteSize_cons]
    omega

/-- The rest of a text from a position on, if the text can be cut there. -/
def fromByte? : List Char → Nat → Option (List Char)
  | s, 0 => some s
  | [], _ + 1 => none
  | c :: s, n + 1 =>
    if c.utf8Size ≤ n + 1 then fromByte? s (n + 1 - c.utf8Size) else none

theorem fromByte?_append (s t : List Char) : fromByte? (s ++ t) (byteSize s) = some t := by
  induction s with
  | nil => cases t <;> rfl
  | cons c s ih =>
    have hpos : 0 < c.utf8Size := c.utf8Size_pos
    obtain ⟨n, hn⟩ : ∃ n, byteSize (c :: s) = n + 1 :=
      ⟨c.utf8Size + byteSize s - 1, by rw [byteSize_cons]; omega⟩
    have hsize : n + 1 = c.utf8Size + byteSize s := by rw [← hn, byteSize_cons]
    rw [hn, List.cons_append, fromByte?, if_pos (by omega)]
    have hrest : n + 1 - c.utf8Size = byteSize s := by omega
    rw [hrest, ih]

theorem length_utf8 (s : String) : (utf8 s).length = byteSize s.toList := by
  have hlist : ∀ l : List Char, (String.ofList l).utf8ByteSize = byteSize l := by
    intro l
    induction l with
    | nil => simp
    | cons c l ih =>
      rw [byteSize_cons, ← ih]
      simp [String.ofList_cons]
  rw [← hlist, String.ofList_toList]
  simp [utf8]

/-- A span that covers a stretch lies in the text, can be cut out of it, and has the bytes of the
stretch in it. -/
structure Span.CutsOut (span : Span) (text piece : String) : Prop where
  size : span.size = (utf8 piece).length
  inside : span.offset + span.size ≤ (utf8 text).length
  starts : (fromByte? text.toList span.offset).isSome
  ends : (fromByte? text.toList (span.offset + span.size)).isSome
  bytes : ((utf8 text).drop span.offset).take span.size = utf8 piece

theorem Span.Covers.cutsOut {span : Span} {text piece : String}
    (h : span.Covers text.toList piece.toList) : span.CutsOut text piece := by
  obtain ⟨before, rest, htext, hoffset, hsize⟩ := h
  have hstring : text = String.ofList before ++ piece ++ String.ofList rest := by
    apply String.toList_inj.1
    rw [htext]
    simp
  have hbytes : utf8 text = utf8 (String.ofList before) ++ utf8 piece ++ utf8 (String.ofList rest) := by
    rw [hstring, utf8_append, utf8_append]
  have hbefore : (utf8 (String.ofList before)).length = span.offset := by
    rw [length_utf8, String.toList_ofList, hoffset]
  have hpiece : (utf8 piece).length = span.size := by rw [length_utf8, hsize]
  constructor
  · exact hpiece.symm
  · rw [hbytes, List.length_append, List.length_append, hbefore, hpiece]
    omega
  · rw [htext, hoffset, List.append_assoc, fromByte?_append]
    rfl
  · rw [htext, hoffset, hsize, ← byteSize_append, fromByte?_append]
    rfl
  · rw [hbytes, List.append_assoc, ← hbefore, List.drop_left, ← hpiece, List.take_left]

end WorkerEnv.Text
