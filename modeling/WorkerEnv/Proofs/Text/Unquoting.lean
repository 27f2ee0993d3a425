/-
# WorkerEnv.Proofs.Text.Unquoting -- reading quoted strings

`unquoted` reads the rest of a quoted string after its opening quote. It knows every escape that such
strings can have, also those that are never written here: the escaped slash, hexadecimal digits of
either case, and two escapes that make up one character beyond U+FFFF. It refuses what may not stand
in a quoted string: a character below U+0020, an escape that means nothing, half a pair. It gives back
each text from its quoted form (`unquoted_quoted`).
-/

import Mathlib.Tactic.SplitIfs
import WorkerEnv.Proofs.Toml.Repetition
import WorkerEnv.Toml.Strings

namespace WorkerEnv.Text

open Toml (Reader Step all Runs isHexDigit)

/-! ## Reading -/

/-- The value of exactly four hexadecimal digits. -/
def codeUnit : Reader Nat := fun s =>
  let front := s.take 4
  if front.length = 4 ∧ front.all isHexDigit then some (numeral 16 front, s.drop 4) else none

/-- The first half of a pair that stands for one character. -/
def isHighHalf (n : Nat) : Bool := 0xD800 ≤ n && n < 0xDC00

/-- The second half of such a pair. -/
def isLowHalf (n : Nat) : Bool := 0xDC00 ≤ n && n < 0xE000

/-- The character that is escaped by its number: one escape, or a pair of them. -/
def numbered : Reader Char := fun s =>
  match codeUnit s with
  | none => none
  | some (n, r) =>
    if isHighHalf n then
      match r with
      | '\\' :: 'u' :: r =>
        (codeUnit r).bind fun (m, r) =>
          if isLowHalf m then
            some (Char.ofNat (0x10000 + (n - 0xD800) * 0x400 + (m - 0xDC00)), r)
          else none
      | _ => none
    else if isLowHalf n then none
    else some (Char.ofNat n, r)

/-- What a backslash stands for together with what follows it. -/
def unescaped : Reader Char
  | [] => none
  | c :: r =>
    if c = quoteMark then some (quoteMark, r)
    else if c = '\\' then some ('\\', r)
    else if c = '/' then some ('/', r)
    else if c = 'b' then some ('\x08', r)
    else if c = 'f' then some ('\x0c', r)
    else if c = 'n' then some ('\n', r)
    else if c = 'r' then some ('\r', r)
    else if c = 't' then some ('\t', r)
    else if c = 'u' then numbered r
    else none

/-- One character, one escape, or the closing quote. -/
def unquotedStep : Reader (Step Char)
  | [] => none
  | c :: r =>
    if c = quoteMark then some (.stop, r)
    else if c = '\\' then (unescaped r).map fun (e, r) => (.more e, r)
    else if c.toNat < 0x20 then none
    else some (.more c, r)

/-- The rest of a quoted string after its opening quote. -/
def unquoted : Reader (List Char) := all unquotedStep

example : unquoted "\\/\\ud83d\\uDE00\", ".toList = some (['/', '😀'], [',', ' ']) := by decide +kernel

example : ∀ text ∈ ["\n\"", "\\x\"", "\\u00g0\"", "\\ud83d\"", "\\uDE00\"", "a"],
    unquoted text.toList = none := by decide +kernel

/-! ## Quoting and reading -/

theorem hexDigit_spec : ∀ d < 16, isHexDigit (hexDigit d) ∧ numeral.digit (hexDigit d) = d := by
  decide

theorem codeUnit_hexDigits {m n : Nat} (hm : m < 16) (hn : n < 16) (rest : List Char) :
    codeUnit ('0' :: '0' :: hexDigit m :: hexDigit n :: rest) = some (m * 16 + n, rest) := by
  obtain ⟨hm, hm'⟩ := hexDigit_spec m hm
  obtain ⟨hn, hn'⟩ := hexDigit_spec n hn
  have hzero : isHexDigit '0' ∧ numeral.digit '0' = 0 := by decide
  simp [codeUnit, numeral, hm, hn, hm', hn', hzero]

theorem numbered_hexDigits {c : Char} (h : c.toNat < 0x20) (rest : List Char) :
    numbered ('0' :: '0' :: hexDigit (c.toNat / 16) :: hexDigit (c.toNat % 16) :: rest) =
      some (c, rest) := by
  have hhigh : ¬ isHighHalf c.toNat := by simp [isHighHalf]; omega
  have hlow : ¬ isLowHalf c.toNat := by simp [isLowHalf]; omega
  have hvalue : c.toNat / 16 * 16 + c.toNat % 16 = c.toNat := by omega
  unfold numbered
  rw [codeUnit_hexDigits (by omega) (by omega), hvalue]
  simp [hhigh, hlow, Char.ofNat_toNat]

/-- The three ways in which a character is written: behind a backslash as one character that stands
for it, by its number, or as it is. -/
theorem escaped_cases (c : Char) :
    (∃ e, escaped c = ['\\', e] ∧ 0x20 ≤ e.toNat ∧ ∀ r, unescaped (e :: r) = some (c, r)) ∨
    (c.toNat < 0x20 ∧
      escaped c = ['\\', 'u', '0', '0', hexDigit (c.toNat / 16), hexDigit (c.toNat % 16)]) ∨
    (escaped c = [c] ∧ c ≠ quoteMark ∧ c ≠ '\\' ∧ 0x20 ≤ c.toNat) := by
  unfold escaped
  split_ifs with hquote hslash hb ht hn hf hr hcontrol
  · subst hquote; exact .inl ⟨quoteMark, rfl, by decide, fun _ => rfl⟩
  · subst hslash; exact .inl ⟨'\\', rfl, by decide, fun _ => rfl⟩
  · subst hb; exact .inl ⟨'b', rfl, by decide, fun _ => rfl⟩
  · subst ht; exact .inl ⟨'t', rfl, by decide, fun _ => rfl⟩
  · subst hn; exact .inl ⟨'n', rfl, by decide, fun _ => rfl⟩
  · subst hf; exact .inl ⟨'f', rfl, by decide, fun _ => rfl⟩
  · subst hr; exact .inl ⟨'r', rfl, by decide, fun _ => rfl⟩
  · exact .inr (.inl ⟨hcontrol, rfl⟩)
  · exact .inr (.inr ⟨rfl, hquote, hslash, Nat.le_of_not_lt hcontrol⟩)

theorem escaped_ne_nil (c : Char) : escaped c ≠ [] := by
  rcases escaped_cases c with ⟨e, h, -⟩ | ⟨-, h⟩ | ⟨h, -⟩ <;> simp [h]

/-- A character is read back from the form that it has in a quoted string. -/
theorem unquotedStep_escaped (c : Char) (rest : List Char) :
    unquotedStep (escaped c ++ rest) = some (.more c, rest) := by
  rcases escaped_cases c with ⟨e, h, -, hread⟩ | ⟨hcontrol, h⟩ | ⟨h, hquote, hslash, hprintable⟩
  · rw [h]
    exact congrArg (Option.map _) (hread rest)
  · rw [h]
    exact congrArg (Option.map _) (numbered_hexDigits hcontrol rest)
  · rw [h, List.singleton_append, unquotedStep, if_neg hquote, if_neg hslash,
      if_neg (Nat.not_lt_of_le hprintable)]

theorem runs_unquotedStep (s rest : List Char) :
    Runs unquotedStep (s.flatMap escaped ++ quoteMark :: rest) s rest := by
  induction s with
  | nil => exact .stop rfl
  | cons c s ih =>
    rw [List.flatMap_cons, List.append_assoc]
    refine .more (unquotedStep_escaped c _) ?_ ih
    have hpos := List.length_pos_iff.2 (escaped_ne_nil c)
    simp only [List.length_append]
    omega

theorem quoted_append (s rest : List Char) :
    quoted s ++ rest = quoteMark :: (s.flatMap escaped ++ quoteMark :: rest) := by
  simp [quoted]

/-- A text is read back from its quoted form, character for character. -/
theorem unquoted_quoted (s rest : List Char) :
    unquoted (s.flatMap escaped ++ quoteMark :: rest) = some (s, rest) :=
  (runs_unquotedStep s rest).all

/-! ## Lines -/

theorem toNat_hexDigit : ∀ d < 16, 0x20 ≤ (hexDigit d).toNat := by decide

theorem le_toNat_of_mem_escaped (c : Char) : ∀ x ∈ escaped c, 0x20 ≤ x.toNat := by
  rcases escaped_cases c with ⟨e, h, he, -⟩ | ⟨hcontrol, h⟩ | ⟨h, -, -, hprintable⟩
  · rw [h, List.forall_mem_cons, List.forall_mem_singleton]
    exact ⟨by decide, he⟩
  · have hhigh := toNat_hexDigit (c.toNat / 16) (by omega)
    have hlow := toNat_hexDigit (c.toNat % 16) (by omega)
    have hfront : ∀ x ∈ ['\\', 'u', '0', '0'], 0x20 ≤ x.toNat := by simp
    have hsplit : escaped c =
        ['\\', 'u', '0', '0'] ++ [hexDigit (c.toNat / 16), hexDigit (c.toNat % 16)] := h
    rw [hsplit, List.forall_mem_append]
    exact ⟨hfront, List.forall_mem_cons.2 ⟨hhigh, List.forall_mem_singleton.2 hlow⟩⟩
  · rw [h, List.forall_mem_singleton]
    exact hprintable

/-- Nothing below U+0020 stands in a quoted string, so it stands on one line. -/
theorem le_toNat_of_mem_quoted {s : List Char} {c : Char} (h : c ∈ quoted s) : 0x20 ≤ c.toNat := by
  have hquote : 0x20 ≤ quoteMark.toNat := by decide
  rw [← List.append_nil (quoted s), quoted_append] at h
  rcases List.mem_cons.1 h with rfl | h
  · exact hquote
  rcases List.mem_append.1 h with h | h
  · obtain ⟨d, -, hd⟩ := List.mem_flatMap.1 h
    exact le_toNat_of_mem_escaped d c hd
  · obtain rfl := List.mem_singleton.1 h
    exact hquote

end WorkerEnv.Text
