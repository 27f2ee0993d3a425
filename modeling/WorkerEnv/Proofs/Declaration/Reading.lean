/-
# WorkerEnv.Proofs.Declaration.Reading -- a literal type read back

A literal type is one line of JSON, and reading it gives the image of the value that it pins: values
with different images never have the same type.

`Spells` is what the induction on the value carries: the text is read as the datum whatever follows
it, as long as that does not go on like a number. The text of a value is longer than that of anything
in it, so its length is enough as the bound of the depth.
-/

import WorkerEnv.Declaration.Literal
import WorkerEnv.Proofs.Decimal.Writing
import WorkerEnv.Proofs.Declaration.Datum

namespace WorkerEnv.Declaration

open Text
open Datum
open Toml (Reader Runs Value)

/-! ## Images -/

mutual

/-- What the literal type of a value has to say: moments are strings, a float that is not finite is
null, and everything else is itself. -/
def image : Value → Datum
  | .string s => .string s
  | .integer i => .integer i
  | .float x => (floatText? x).elim .null .decimal
  | .boolean b => .boolean b
  | .moment m => .string (String.ofList m.text)
  | .unreadable => .null
  | .array items => .array (itemImages items)
  | .table entries => .object (entryImages entries)

/-- `image` of every item. -/
def itemImages : List Value → List Datum
  | [] => []
  | v :: vs => image v :: itemImages vs

/-- `image` under every key. -/
def entryImages : List (String × Value) → List (String × Datum)
  | [] => []
  | (key, v) :: es => (key, image v) :: entryImages es

end

/-! ## Texts that are read -/

/-- What follows does not go on like a number. -/
def Ends (rest : List Char) : Prop := ∀ c ∈ rest.head?, ¬ isNumeric c

/-- A text on one line that a reader reads as something, whatever comes after it, and that begins
neither with a blank nor with a closing bracket. -/
structure Spells {α : Type} (item : Reader α) (text : List Char) (a : α) : Prop where
  reads : ∀ rest, Ends rest → item (text ++ rest) = some (a, rest)
  starts : ∃ c r, text = c :: r ∧ ¬ isSpace c ∧ c ≠ ']' ∧ c ≠ '\x7d'
  printable : ∀ c ∈ text, 0x20 ≤ c.toNat

theorem ends_cons {c : Char} (h : ¬ isNumeric c) (r : List Char) : Ends (c :: r) := by
  intro d hd
  obtain rfl : c = d := Option.some.inj hd
  exact h

/-! ### Lists -/

section Intercalate

variable {β : Type} {sep : List β} {texts : List (List β)}

theorem length_le_intercalate : ∀ t ∈ texts, t.length ≤ (sep.intercalate texts).length := by
  induction texts with
  | nil => simp
  | cons t ts ih =>
    cases ts with
    | nil => simp
    | cons t' ts =>
      rw [List.intercalate_cons_cons]
      refine List.forall_mem_cons.2 ⟨?_, fun u hu => ?_⟩
      · simp only [List.length_append]
        omega
      · have hu := ih u hu
        simp only [List.length_append]
        omega

theorem forall_mem_intercalate {p : β → Prop} (hsep : ∀ c ∈ sep, p c)
    (h : ∀ t ∈ texts, ∀ c ∈ t, p c) : ∀ c ∈ sep.intercalate texts, p c := by
  induction texts with
  | nil => simp
  | cons t ts ih =>
    obtain ⟨ht, hts⟩ := List.forall_mem_cons.1 h
    cases ts with
    | nil => simpa using ht
    | cons t' ts =>
      rw [List.intercalate_cons_cons]
      exact List.forall_mem_append.2 ⟨List.forall_mem_append.2 ⟨ht, hsep⟩, ih hts⟩

end Intercalate

/-- Closing brackets are neither blanks nor commas nor parts of numbers, and no text begins with
one. -/
structure IsClosing (close : Char) : Prop where
  space : ¬ isSpace close
  comma : close ≠ ','
  numeric : ¬ isNumeric close
  bracket : close = ']' ∨ close = '\x7d'

theorem isClosing_bracket : IsClosing ']' :=
  ⟨by decide, by decide, by decide, .inl rfl⟩

theorem isClosing_brace : IsClosing '\x7d' :=
  ⟨by decide, by decide, by decide, .inr rfl⟩

section Lists

variable {α : Type} {item : Reader α} {texts : List (List Char)} {as : List α} {close : Char}

theorem runs_separated (hclose : IsClosing close) (h : List.Forall₂ (Spells item) texts as)
    (hne : texts ≠ []) (rest : List Char) :
    Runs (separated close item) ([','].intercalate texts ++ close :: rest) as rest := by
  -- a text has the closing bracket behind it if it is the last one, and else a comma
  induction h with
  | nil => exact absurd rfl hne
  | @cons text a texts as htext htexts ih =>
    cases htexts with
    | nil =>
      refine .last ?_
      rw [List.intercalate_singleton, separated, htext.reads _ (ends_cons hclose.numeric rest)]
      simp only [Option.bind_some, skipSpace_cons hclose.space, if_neg hclose.comma, if_true]
    | @cons text' a' texts as htext' htexts =>
      rw [List.intercalate_cons_cons, List.append_assoc, List.append_assoc, List.singleton_append]
      refine .more ?_ ?_ (ih (List.cons_ne_nil _ _))
      · rw [separated, htext.reads _ (ends_cons (by decide) _)]
        simp only [Option.bind_some, skipSpace_cons (show ¬ isSpace ',' by decide), if_true]
      · simp only [List.length_append, List.length_cons]
        omega

theorem listed_intercalate (hclose : IsClosing close) (h : List.Forall₂ (Spells item) texts as)
    (rest : List Char) :
    listed close item ([','].intercalate texts ++ close :: rest) = some (as, rest) := by
  cases h with
  | nil =>
    rw [List.intercalate_nil, List.nil_append, listed]
    simp only [skipSpace_cons hclose.space, if_true]
  | @cons text a texts as htext htexts =>
    -- the list does not end at once, since no text begins with a closing bracket
    obtain ⟨c, r, hstart, hspace, hbracket, hbrace⟩ := htext.starts
    have hruns := runs_separated hclose (.cons htext htexts) (List.cons_ne_nil _ _) rest
    have hopen : ∃ r', [','].intercalate (text :: texts) ++ close :: rest = c :: r' := by
      cases texts <;> simp [hstart]
    have hne : c ≠ close := by
      rcases hclose.bracket with rfl | rfl <;> assumption
    obtain ⟨r', hr'⟩ := hopen
    rw [hr'] at hruns ⊢
    simp only [listed, skipSpace_cons hspace, if_neg hne, hruns.all]

/-- Texts that are read one by one are printable with commas between them. -/
theorem printable_intercalate (h : List.Forall₂ (Spells item) texts as) :
    ∀ c ∈ [','].intercalate texts, 0x20 ≤ c.toNat := by
  refine forall_mem_intercalate (by simp) ?_
  induction h with
  | nil => simp
  | cons htext _ ih => exact List.forall_mem_cons.2 ⟨htext.printable, ih⟩

end Lists

/-! ### One datum -/

section Data

variable {depth : Nat} {texts : List (List Char)}

theorem spells_number {s : List Char} {d : Datum} (hne : s ≠ []) (h : ∀ c ∈ s, isNumeric c)
    (hd : ofNumeral? s = some d) : Spells (datum (depth + 1)) s d := by
  cases s with
  | nil => exact absurd rfl hne
  | cons c cs =>
    have hc := h c List.mem_cons_self
    have hspace := not_isSpace_of_isNumeric hc
    refine ⟨fun rest hrest => ?_, ⟨c, cs, rfl, hspace, ?_, ?_⟩, fun x hx => ?_⟩
    · rw [List.cons_append, datum_of_scalar hspace, scalar_of_isNumeric hc, ← List.cons_append,
        number_append h hrest, hd]
      · rfl
      · exact ⟨ne_of_isNumeric hc (by decide), ne_of_isNumeric hc (by decide)⟩
    · exact ne_of_isNumeric hc (by decide)
    · exact ne_of_isNumeric hc (by decide)
    · exact le_toNat_of_isNumeric (h x hx)

/-- A whole part with a tail or without, behind a minus sign or not. -/
theorem spells_signed (negative : Bool) {whole tail : List Char} (hwhole : isWhole whole)
    (htail : tail = [] ∨ isTail tail) {d : Datum}
    (hd : ofNumeral? (signed negative (whole ++ tail)) = some d) :
    Spells (datum (depth + 1)) (signed negative (whole ++ tail)) d := by
  have hbody : ∀ c ∈ whole ++ tail, isNumeric c := by
    refine List.forall_mem_append.2 ⟨isNumeric_of_isDigits (isDigits_of_isWhole hwhole), ?_⟩
    rcases htail with rfl | htail
    · simp
    · exact isNumeric_of_isTail htail
  have hne : whole ++ tail ≠ [] :=
    List.append_ne_nil_of_left_ne_nil (isDigits_iff.1 (isDigits_of_isWhole hwhole)).1 tail
  cases negative with
  | false => exact spells_number hne hbody hd
  | true =>
    exact spells_number (List.cons_ne_nil _ _) (List.forall_mem_cons.2 ⟨by decide, hbody⟩) hd

theorem toList_toString (i : Int) :
    (toString i).toList = signed (i < 0) (Nat.toDigits 10 i.natAbs) := by
  cases i with
  | ofNat n =>
    show (toString n).toList = Nat.toDigits 10 n
    rw [Nat.toString_eq_ofList_toDigits, String.toList_ofList]
  | negSucc n =>
    rw [decide_eq_true (Int.negSucc_lt_zero n)]
    show ("-" ++ Nat.repr (n + 1)).toList = '-' :: Nat.toDigits 10 (n + 1)
    rw [Nat.repr_eq_ofList_toDigits, String.toList_append, String.toList_ofList]
    simp

theorem spells_integer (i : Int) :
    Spells (datum (depth + 1)) (toString i).toList (.integer i) := by
  have hwhole := isWhole_toDigits i.natAbs
  have hread := ofNumeral?_signed (i < 0) hwhole (.inl rfl)
  have hvalue : (if i < 0 then -(i.natAbs : Int) else i.natAbs) = i := by
    split <;> omega
  simp only [if_true, Nat.ofDigitChars_ten_toDigits, decide_eq_true_eq, hvalue] at hread
  rw [toList_toString, ← List.append_nil (Nat.toDigits 10 i.natAbs)]
  exact spells_signed (i < 0) hwhole (.inl rfl) hread

theorem spells_float {x : Decimal.Double} {t : String} (h : floatText? x = some t) :
    Spells (datum (depth + 1)) t.toList (.decimal t) := by
  obtain ⟨t', ht', rfl⟩ := Option.map_eq_some_iff.1 h
  rw [String.toList_ofList]
  obtain ⟨whole, tail, hsign, hwhole, htail⟩ := Decimal.exists_of_text? ht'
  have hne : tail ≠ [] := by
    rintro rfl
    cases htail
  have hread (negative : Bool) := ofNumeral?_signed negative hwhole (.inr htail)
  simp only [if_neg hne] at hread
  rcases hsign with rfl | rfl
  · exact spells_signed false hwhole (.inr htail) (hread false)
  · exact spells_signed true hwhole (.inr htail) (hread true)

theorem spells_string (s : String) :
    Spells (datum (depth + 1)) (quote s).toList (.string s) := by
  rw [quote, String.toList_ofList]
  refine ⟨fun rest _ => ?_, ?_, fun c hc => le_toNat_of_mem_quoted hc⟩
  · rw [quoted_append, datum_of_scalar (by decide) (by decide)]
    show (unquoted _).map _ = _
    rw [unquoted_quoted]
    simp
  · exact ⟨quoteMark, _, rfl, by decide, by decide, by decide⟩

theorem spells_null : Spells (datum (depth + 1)) "null".toList .null :=
  ⟨fun _ _ => rfl, ⟨'n', _, rfl, by decide, by decide, by decide⟩, by simp⟩

theorem spells_boolean (b : Bool) :
    Spells (datum (depth + 1)) (booleanText b).toList (.boolean b) := by
  cases b with
  | false =>
    exact ⟨fun _ _ => rfl, ⟨'f', _, rfl, by decide, by decide, by decide⟩, by simp [booleanText]⟩
  | true =>
    exact ⟨fun _ _ => rfl, ⟨'t', _, rfl, by decide, by decide, by decide⟩, by simp [booleanText]⟩

/-- A list between brackets. -/
theorem spells_array {ds : List Datum} (h : List.Forall₂ (Spells (datum depth)) texts ds) :
    Spells (datum (depth + 1)) ('[' :: [','].intercalate texts ++ [']']) (.array ds) := by
  refine ⟨fun rest _ => ?_, ⟨'[', _, rfl, by decide, by decide, by decide⟩, ?_⟩
  · rw [List.cons_append, List.cons_append, List.append_assoc, List.singleton_append]
    show (listed ']' (datum depth) _).map _ = _
    rw [listed_intercalate isClosing_bracket h]
    rfl
  · exact List.forall_mem_append.2
      ⟨List.forall_mem_cons.2 ⟨by decide, printable_intercalate h⟩, by simp⟩

/-- A key with a datum. -/
theorem spells_entry {item : Reader Datum} (key : String) {text : List Char} {d : Datum}
    (h : Spells item text d) :
    Spells (entry item) ((quote key).toList ++ ':' :: text) (key, d) := by
  rw [quote, String.toList_ofList]
  refine ⟨fun rest hrest => ?_, ?_, ?_⟩
  · have hquote : ¬ isSpace quoteMark := by decide
    have hcolon : ¬ isSpace ':' := by decide
    rw [List.append_assoc, quoted_append, entry, skipSpace_cons hquote]
    show (unquoted _).bind _ = _
    rw [unquoted_quoted]
    simp only [Option.bind_some, List.cons_append, skipSpace_cons hcolon, h.reads rest hrest]
    simp
  · exact ⟨quoteMark, _, rfl, by decide, by decide, by decide⟩
  · exact List.forall_mem_append.2 ⟨fun c hc => le_toNat_of_mem_quoted hc,
      List.forall_mem_cons.2 ⟨by decide, h.printable⟩⟩

/-- Entries between braces. -/
theorem spells_object {es : List (String × Datum)}
    (h : List.Forall₂ (Spells (entry (datum depth))) texts es) :
    Spells (datum (depth + 1)) ('\x7b' :: [','].intercalate texts ++ ['\x7d']) (.object es) := by
  refine ⟨fun rest _ => ?_, ⟨'\x7b', _, rfl, by decide, by decide, by decide⟩, ?_⟩
  · rw [List.cons_append, List.cons_append, List.append_assoc, List.singleton_append]
    show (listed '\x7d' (entry (datum depth)) _).map _ = _
    rw [listed_intercalate isClosing_brace h]
    rfl
  · exact List.forall_mem_append.2
      ⟨List.forall_mem_cons.2 ⟨by decide, printable_intercalate h⟩, by simp⟩

end Data

/-! ## Values -/

/-- A literal type as characters. -/
def literal (v : Value) : List Char := (asJson v).text.toList

theorem literal_array (items : List Value) :
    literal (.array items) =
      '[' :: [','].intercalate ((itemTexts (itemsAsJson items)).map String.toList) ++ [']'] := by
  simp [literal, asJson, Json.text, String.toList_append, String.toList_intercalate]

theorem literal_table (entries : List (String × Value)) :
    literal (.table entries) =
      '\x7b' :: [','].intercalate ((entryTexts (entriesAsJson entries)).map String.toList) ++
        ['\x7d'] := by
  simp [literal, asJson, Json.text, String.toList_append, String.toList_intercalate]

/-- What stands between brackets is shorter by two characters. -/
theorem fits_inside {texts : List (List Char)} {opening close : Char} {n : Nat}
    (h : (opening :: [','].intercalate texts ++ [close]).length ≤ n + 1) :
    ∀ t ∈ texts, t.length < n := by
  intro t ht
  have hle : t.length ≤ ([','].intercalate texts).length := length_le_intercalate t ht
  simp only [List.length_append, List.length_cons, List.length_nil] at h
  omega

mutual

/-- The type of a value is read as its image, in an array or a table as well as alone. -/
theorem spells_literal (v : Value) {depth : Nat} (h : (literal v).length ≤ depth + 1) :
    Spells (datum (depth + 1)) (literal v) (image v) := by
  cases v with
  | string s =>
    rw [literal, asJson, Json.text, image]
    exact spells_string s
  | integer i =>
    rw [literal, asJson, Json.text, image]
    exact spells_integer i
  | float x =>
    rw [literal, asJson, image]
    cases htext : floatText? x with
    | none => 
      rw [Option.elim, Json.text]
      exact spells_null
    | some t =>
      rw [Option.elim, Json.text]
      exact spells_float htext
  | boolean b =>
    rw [literal, asJson, Json.text, image]
    exact spells_boolean b
  | moment m =>
    rw [literal, asJson, Json.text, image]
    exact spells_string _
  | unreadable =>
    rw [literal, asJson, Json.text, image]
    exact spells_null
  | array items =>
    rw [literal_array] at h ⊢
    rw [image]
    exact spells_array (spells_items items (fits_inside h))
  | table entries =>
    rw [literal_table] at h ⊢
    rw [image]
    exact spells_object (spells_entries entries (fits_inside h))

theorem spells_items (items : List Value) {depth : Nat}
    (h : ∀ t ∈ (itemTexts (itemsAsJson items)).map String.toList, t.length < depth) :
    List.Forall₂ (Spells (datum depth)) ((itemTexts (itemsAsJson items)).map String.toList)
      (itemImages items) := by
  cases items with
  | nil =>
    rw [itemsAsJson, itemTexts, itemImages]
    exact .nil
  | cons v vs =>
    rw [itemsAsJson, itemTexts, List.map_cons] at h ⊢
    rw [itemImages]
    obtain ⟨hfirst, hrest⟩ := List.forall_mem_cons.1 h
    cases depth with
    | zero => exact absurd hfirst (Nat.not_lt_zero _)
    | succ depth =>
      exact .cons (spells_literal v (Nat.le_of_lt hfirst)) (spells_items vs hrest)

theorem spells_entries (entries : List (String × Value)) {depth : Nat}
    (h : ∀ t ∈ (entryTexts (entriesAsJson entries)).map String.toList, t.length < depth) :
    List.Forall₂ (Spells (entry (datum depth)))
      ((entryTexts (entriesAsJson entries)).map String.toList) (entryImages entries) := by
  cases entries with
  | nil =>
    rw [entriesAsJson, entryTexts, entryImages]
    exact .nil
  | cons e es =>
    obtain ⟨key, v⟩ := e
    have htext : (quote key ++ ":" ++ (asJson v).text).toList =
        (quote key).toList ++ ':' :: literal v := by
      simp [literal, String.toList_append]
    rw [entriesAsJson, entryTexts, List.map_cons, htext] at h ⊢
    rw [entryImages]
    obtain ⟨hfirst, hrest⟩ := List.forall_mem_cons.1 h
    cases depth with
    | zero => exact absurd hfirst (Nat.not_lt_zero _)
    | succ depth =>
      have hlength : (literal v).length ≤ depth + 1 := by
        simp only [List.length_append, List.length_cons] at hfirst
        omega
      exact .cons (spells_entry key (spells_literal v hlength)) (spells_entries es hrest)

end

/-- Only a float on its own can have another type than its JSON text. -/
theorem pinnedType_eq {v : Value} (h : ∀ x, v = .float x → x.isFinite) :
    pinnedType v = (asJson v).text := by
  cases v with
  | float x =>
    have hsome : (floatText? x).isSome := by
      rw [floatText?, Option.isSome_map, Decimal.text?_isSome]
      exact h x rfl
    obtain ⟨t, ht⟩ := Option.isSome_iff_exists.1 hsome
    rw [pinnedType, asJson, ht]
    rfl
  | _ => rfl

/-- As deep as a text is long is deep enough. -/
theorem spells_text (v : Value) : Spells (datum (asJson v).text.length) (literal v) (image v) := by
  -- the bound is one more than some number, since the text is not empty
  obtain ⟨c, r, hstart, -⟩ := (spells_literal v (Nat.le_succ _)).starts
  have hlength : (asJson v).text.length = r.length + 1 := by
    rw [← String.length_toList]
    exact congrArg List.length hstart
  rw [hlength]
  exact spells_literal v (Nat.le_of_eq (congrArg List.length hstart))

theorem Spells.read? {text : String} {d : Datum} (h : Spells (datum text.length) text.toList d) :
    Datum.read? text = some d := by
  have hread := h.reads [] (by simp [Ends])
  rw [List.append_nil] at hread
  rw [Datum.read?, hread]
  rfl

/-- The type of a value that is not itself a NaN or an infinity is one JSON text on one line, and
reading it gives the image of the value. -/
theorem pinnedType_account {v : Value} (h : ∀ x, v = .float x → x.isFinite) :
    (∀ c ∈ (pinnedType v).toList, 0x20 ≤ c.toNat) ∧ Datum.read? (pinnedType v) = some (image v) := by
  have hspells := spells_text v
  rw [pinnedType_eq h]
  exact ⟨hspells.printable, hspells.read?⟩

/-- Quotes and control characters in a key and in a value, a number at the edge of its word, a NaN
inside an array, and parts that are empty. -/
def crowded : Value := .table
  [("a\"\\\n\x01", .array
      [.integer (-Int.pow 2 63), .float .nan, .string "\x1f\t\x7f", .boolean true]),
    ("b", .float (.finite true (3 * Nat.pow 2 51) (-52))), ("c", .array []),
    ("d", .moment ⟨some ⟨1979, 5, 27⟩, none, none⟩), ("", .table [])]

theorem pinnedType_account_crowded :
    (∀ x, crowded = .float x → x.isFinite) ∧
    (∀ c ∈ (pinnedType crowded).toList, 0x20 ≤ c.toNat) ∧
    Datum.read? (pinnedType crowded) = some (.object
      [("a\"\\\n\x01", .array
          [.integer (-9223372036854775808), .null, .string "\x1f\t\x7f", .boolean true]),
        ("b", .decimal "-1.5"), ("c", .array []), ("d", .string "1979-05-27"), ("", .object [])]) := by
  have hfinite : ∀ x, crowded = .float x → x.isFinite := by
    intro x hx
    cases hx
  have hnan : floatText? .nan = none := rfl
  have hfloat : floatText? (.finite true (3 * Nat.pow 2 51) (-52)) = some "-1.5" := by decide +kernel
  have hmoment : String.ofList (Toml.Moment.text ⟨some ⟨1979, 5, 27⟩, none, none⟩) = "1979-05-27" := by
    decide +kernel
  have haccount := pinnedType_account hfinite
  simp only [crowded, image, itemImages, entryImages, hnan, hfloat, hmoment, Option.elim_none,
    Option.elim_some] at haccount
  exact ⟨hfinite, haccount⟩

end WorkerEnv.Declaration
