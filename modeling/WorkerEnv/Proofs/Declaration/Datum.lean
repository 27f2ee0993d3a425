/-
# WorkerEnv.Proofs.Declaration.Datum -- reading JSON

`Datum.read?` reads JSON: the whole of its grammar, with blanks wherever they may stand, and nothing
else. What it gives tells integers from other numbers, keeps the text of the latter, and keeps the
entries of objects in order, also those of one key. How deep a text may nest is bounded by its length
alone.
-/

import WorkerEnv.Proofs.Text.Numerals
import WorkerEnv.Proofs.Text.Unquoting

namespace WorkerEnv.Declaration

open Text
open Toml (Reader Step all)

/-! ## What JSON says -/

/-- What a JSON text says. A number is an integer or, with a fraction or an exponent, a decimal, of
which the text is kept. -/
inductive Datum where
  | null
  | boolean (b : Bool)
  | integer (i : Int)
  | decimal (text : String)
  | string (s : String)
  | array (items : List Datum)
  | object (entries : List (String × Datum))
  deriving Inhabited, Repr

namespace Datum

/-! ## Reading -/

/-- The blanks of JSON. -/
def isSpace (c : Char) : Bool := c == ' ' || c == '\t' || c == '\n' || c == '\r'

/-- The rest after blanks. -/
def skipSpace (s : List Char) : List Char := s.dropWhile isSpace

/-- The number that a text of digits and the like is, if it is one. -/
def ofNumeral? (s : List Char) : Option Datum :=
  let negative := s.head? == some '-'
  let body := if negative then s.tail else s
  let whole := body.takeWhile Char.isDigit
  let rest := body.dropWhile Char.isDigit
  let n : Int := Nat.ofDigitChars 10 whole 0
  if !isWhole whole then none
  else if rest.isEmpty then some (.integer (if negative then -n else n))
  else if isTail rest then some (.decimal (String.ofList s))
  else none

/-- A number. -/
def number : Reader Datum := fun s =>
  (ofNumeral? (s.takeWhile isNumeric)).map fun d => (d, s.dropWhile isNumeric)

/-- A datum that holds no other. -/
def scalar : Reader Datum
  | 'n' :: 'u' :: 'l' :: 'l' :: r => some (.null, r)
  | 't' :: 'r' :: 'u' :: 'e' :: r => some (.boolean true, r)
  | 'f' :: 'a' :: 'l' :: 's' :: 'e' :: r => some (.boolean false, r)
  | '\x22' :: r => (unquoted r).map fun (s, r) => (.string (String.ofList s), r)
  | s => number s

/-- An item, and a comma with another item behind it or the closing bracket. -/
def separated {α : Type} (close : Char) (item : Reader α) : Reader (Step α) := fun s =>
  (item s).bind fun (a, r) =>
    match skipSpace r with
    | [] => none
    | c :: r => if c = ',' then some (.more a, r) else if c = close then some (.last a, r) else none

/-- The items up to a closing bracket, which may come at once. -/
def listed {α : Type} (close : Char) (item : Reader α) : Reader (List α) := fun s =>
  match skipSpace s with
  | [] => none
  | c :: r => if c = close then some ([], r) else all (separated close item) (c :: r)

/-- A key, a colon and a datum. -/
def entry (datum : Reader Datum) : Reader (String × Datum) := fun s =>
  match skipSpace s with
  | '\x22' :: r =>
    (unquoted r).bind fun (key, r) =>
      match skipSpace r with
      | ':' :: r => (datum r).map fun (d, r) => ((String.ofList key, d), r)
      | _ => none
  | _ => none

/-- A datum in which arrays and objects nest less deep than the given number. -/
def datum : Nat → Reader Datum
  | 0 => fun _ => none
  | depth + 1 => fun s =>
    match skipSpace s with
    | '[' :: r => (listed ']' (datum depth) r).map fun (ds, r) => (.array ds, r)
    | '\x7b' :: r => (listed '\x7d' (entry (datum depth)) r).map fun (es, r) => (.object es, r)
    | r => scalar r

/-- What a text says, if it is one JSON text. It cannot nest deeper than it is long. -/
def read? (text : String) : Option Datum :=
  match datum text.length text.toList with
  | none => none
  | some (d, r) => if (skipSpace r).isEmpty then some d else none

example : ∀ text ∈ ["[1,]", "01", "1.", "-", "\"\n\"", "\"\\ud83d\"", "nul", "[] []", ""],
    (read? text).isNone := by decide +kernel

example : ∀ text ∈ [" \x7b\"\" :\n[1.5E-3\t, false , 0]\r\x7d ", "-0", "[ ]"],
    (read? text).isSome := by decide +kernel

/-! ## Beginnings -/

theorem skipSpace_cons {c : Char} (h : ¬ isSpace c) (r : List Char) : skipSpace (c :: r) = c :: r :=
  List.dropWhile_cons_of_neg h

/-- A text that does not open an array or an object is read as a scalar. -/
theorem datum_of_scalar {c : Char} (hspace : ¬ isSpace c) (hopen : c ≠ '[' ∧ c ≠ '\x7b') (depth : Nat)
    (r : List Char) : datum (depth + 1) (c :: r) = scalar (c :: r) := by
  simp only [datum, skipSpace_cons hspace]
  split
  · next h => exact absurd (List.cons.inj h).1 hopen.1
  · next h => exact absurd (List.cons.inj h).1 hopen.2
  · rfl

/-! ## Numbers -/

section Numbers

variable {c : Char} {s whole tail : List Char}

theorem ne_of_isNumeric {d : Char} (h : isNumeric c) (hd : ¬ isNumeric d) : c ≠ d := by
  rintro rfl
  exact hd h

theorem not_isSpace_of_isNumeric (h : isNumeric c) : ¬ isSpace c := by
  simp only [isSpace, Bool.or_eq_true, beq_iff_eq]
  rintro (((rfl | rfl) | rfl) | rfl) <;> exact absurd h (by decide)

theorem le_toNat_of_isNumeric (h : isNumeric c) : 0x20 ≤ c.toNat := by
  simp only [isNumeric, Bool.or_eq_true, beq_iff_eq] at h
  rcases h with ((((h | rfl) | rfl) | rfl) | rfl) | rfl
  · have hzero : (48 : UInt32) ≤ c.val := (by simpa [Char.isDigit] using h : _ ∧ _).1
    exact Nat.le_trans (by decide) (UInt32.le_iff_toNat_le.1 hzero)
  all_goals decide

theorem scalar_of_isNumeric (h : isNumeric c) (r : List Char) : scalar (c :: r) = number (c :: r) := by
  unfold scalar
  split
  · next hs => exact absurd (List.cons.inj hs).1 (ne_of_isNumeric h (by decide))
  · next hs => exact absurd (List.cons.inj hs).1 (ne_of_isNumeric h (by decide))
  · next hs => exact absurd (List.cons.inj hs).1 (ne_of_isNumeric h (by decide))
  · next hs => exact absurd (List.cons.inj hs).1 (ne_of_isNumeric h (by decide))
  · rfl

/-- A number ends where something else than its characters follows. -/
theorem number_append (h : ∀ c ∈ s, isNumeric c) {rest : List Char}
    (hrest : ∀ c ∈ rest.head?, ¬ isNumeric c) :
    number (s ++ rest) = (ofNumeral? s).map fun d => (d, rest) := by
  rw [number, takeWhile_append_of_stop h hrest, dropWhile_append_of_stop h hrest]

/-- A text, with a minus sign or without. -/
def signed (negative : Bool) (s : List Char) : List Char := if negative then '-' :: s else s

/-- A whole part with a tail or without is a number, an integer only without one. -/
theorem ofNumeral?_signed (negative : Bool) (hwhole : isWhole whole) (htail : tail = [] ∨ isTail tail) :
    ofNumeral? (signed negative (whole ++ tail)) = some (
      if tail = [] then
        let n : Int := Nat.ofDigitChars 10 whole 0
        .integer (if negative then -n else n)
      else .decimal (String.ofList (signed negative (whole ++ tail)))) := by
  obtain ⟨hne, hdigits⟩ := isDigits_iff.1 (isDigits_of_isWhole hwhole)
  have hstop : ∀ c ∈ tail.head?, ¬ c.isDigit := by
    rcases htail with rfl | htail
    · simp
    · exact stops_of_isTail htail
  -- a whole part begins with a digit, so what is in front of it is the sign
  have hsign : ((signed negative (whole ++ tail)).head? == some '-') = negative := by
    cases negative with
    | true => rfl
    | false =>
      cases whole with
      | nil => exact absurd rfl hne
      | cons d ds =>
        have hd : d ≠ '-' := by
          rintro rfl
          exact absurd (hdigits '-' List.mem_cons_self) (by decide)
        simp [signed, hd]
  have hbody : (if negative then (signed negative (whole ++ tail)).tail
      else signed negative (whole ++ tail)) = whole ++ tail := by
    cases negative <;> rfl
  simp only [ofNumeral?, hsign, hbody, takeWhile_append_of_stop hdigits hstop,
    dropWhile_append_of_stop hdigits hstop]
  rcases htail with rfl | htail
  · simp [hwhole]
  · have hne : tail ≠ [] := by
      rintro rfl
      cases htail
    simp [hwhole, htail, hne]

end Numbers

end Datum

end WorkerEnv.Declaration
