/-
# WorkerEnv.Proofs.Script.Exports -- which exports the detection finds

The search goes on behind each `export` that it rejects. Two occurrences of `export` cannot overlap,
so it comes to every one of them (`hasDefaultExport_iff`), and a default export is found wherever it
stands. What it takes for one need not be one: it looks at what stands before an `export` only as far
back as the `export` before it, it does not ask for anything between `export` and `default`, and it
lets a dollar sign follow `default`. A script with one of these lookalikes counts as a module, and
no other script without a default export does.
-/

import Mathlib.Data.List.Basic
import Mathlib.Data.List.TakeWhile
import WorkerEnv.Proofs.Text.Words
import WorkerEnv.Script.Detection

namespace WorkerEnv.Script

open Text

/-! ## Names and blanks -/

/-- The characters that names are made of. -/
def inName (c : Char) : Bool := isWord c || c == '_' || c == '$'

/-- No name runs on to the end of the text. -/
def EndsOutsideName (s : List Char) : Prop := ∀ c ∈ s.getLast?, ¬ inName c

/-- No name runs on from the start of the text. -/
def BeginsOutsideName (s : List Char) : Prop := ∀ c ∈ s.head?, ¬ inName c

/-- The code points of the blanks, as intervals with both ends in them. -/
def blankIntervals : List (Nat × Nat) :=
  [(0x09, 0x0D), (0x20, 0x20), (0x85, 0x85), (0xA0, 0xA0), (0x1680, 0x1680), (0x2000, 0x200A),
    (0x2028, 0x2029), (0x202F, 0x202F), (0x205F, 0x205F), (0x3000, 0x3000)]

theorem exists_blankInterval {c : Char} (h : isBlank c) :
    ∃ b ∈ blankIntervals, b.1 ≤ c.toNat ∧ c.toNat ≤ b.2 := by
  simp only [isBlank, Bool.or_eq_true, Bool.and_eq_true, decide_eq_true_eq, beq_iff_eq] at h
  simp only [blankIntervals, List.exists_mem_cons_iff, List.not_mem_nil, false_and, exists_false]
  omega

/-- The tables of blanks and of word characters have no code point in common. -/
theorem blankIntervals_apart : wordIntervals.all fun w =>
    blankIntervals.all fun b => b.2 < w.1 || w.2 < b.1 := by
  decide +kernel

theorem not_isWord_of_isBlank {c : Char} (h : isBlank c) : ¬ isWord c := by
  have hapart := blankIntervals_apart
  simp only [List.all_eq_true, Bool.or_eq_true, decide_eq_true_eq] at hapart
  simp only [isWord, List.any_eq_true, Bool.and_eq_true, decide_eq_true_eq]
  rintro ⟨w, hw, hlow, hhigh⟩
  obtain ⟨b, hb, hfrom, hto⟩ := exists_blankInterval h
  have hout := hapart w hw b hb
  omega

theorem not_inName_of_isBlank {c : Char} (h : isBlank c) : ¬ inName c := by
  have hunderscore : c ≠ '_' := by
    rintro rfl
    exact absurd h (by decide)
  have hdollar : c ≠ '$' := by
    rintro rfl
    exact absurd h (by decide)
  simp [inName, not_isWord_of_isBlank h, hunderscore, hdollar]

theorem endsOutsideWord_iff {s : List Char} : endsOutsideWord s ↔ EndsOutsideName s := by
  unfold endsOutsideWord EndsOutsideName inName
  cases s.getLast? <;> simp

/-! ## What makes an export the default -/

/-- An item of a list whose items have commas between them. -/
def IsItem (list item : List Char) : Prop :=
  ∃ before after, list = before ++ item ++ after ∧ ',' ∉ item ∧
    (∀ c ∈ before.getLast?, c = ',') ∧ ∀ c ∈ after.head?, c = ','

/-- The last two words are `as default`. -/
def EndsAsDefault (item : List Char) : Prop :=
  ∃ front gap tail, item = front ++ asWord ++ gap ++ defaultWord ++ tail ∧
    gap ≠ [] ∧ (∀ c ∈ gap, isBlank c) ∧ (∀ c ∈ tail, isBlank c) ∧ ∀ c ∈ front.getLast?, isBlank c

/-- The text begins with a list in braces, the closing one perhaps missing, that has an item with
`as default` at its end. -/
def ListsAsDefault (s : List Char) : Prop :=
  ∃ list rest, s = '\x7b' :: list ++ rest ∧ '\x7d' ∉ list ∧ (∀ c ∈ rest.head?, c = '\x7d') ∧
    ∃ item, IsItem list item ∧ EndsAsDefault item

/-- The text begins with `default`, and what follows it is as given. -/
def BeginsDefault (follows : List Char → Prop) (s : List Char) : Prop :=
  ∃ rest, s = defaultWord ++ rest ∧ follows rest

/-- A property of what comes after the blanks at the start of a text. -/
def AfterBlanks (property : List Char → Prop) (s : List Char) : Prop :=
  ∃ gap rest, s = gap ++ rest ∧ (∀ c ∈ gap, isBlank c) ∧ property rest

theorem mem_pieces_comma_iff {list item : List Char} :
    item ∈ pieces (· == ',') list ↔ IsItem list item := by
  rw [mem_pieces_iff, IsItem]
  simp only [beq_iff_eq]
  refine exists₂_congr fun before after => and_congr_right fun _ => and_congr_left fun _ => ?_
  exact ⟨fun h hmem => h _ hmem rfl, fun h c hc heq => h (heq ▸ hc)⟩

theorem unbroken_asWord : Unbroken asWord := by
  refine ⟨by decide, ?_⟩
  simp only [asWord, List.forall_mem_cons]
  exact ⟨by decide, by decide, by simp⟩

theorem unbroken_defaultWord : Unbroken defaultWord := by
  refine ⟨by decide, ?_⟩
  simp only [defaultWord, List.forall_mem_cons]
  exact ⟨by decide, by decide, by decide, by decide, by decide, by decide, by decide, by simp⟩

theorem isDefaultItem_iff {item : List Char} : isDefaultItem item ↔ EndsAsDefault item := by
  have htake : isDefaultItem item ↔ ∃ ws, words item = ws ++ [asWord] ++ [defaultWord] := by
    rw [isDefaultItem, beq_iff_eq]
    constructor
    · intro h
      refine ⟨((words item).reverse.drop 2).reverse, List.reverse_injective ?_⟩
      rw [← List.take_append_drop 2 (words item).reverse, h]
      simp
    · rintro ⟨ws, h⟩
      simp [h]
  rw [htake]
  constructor
  · rintro ⟨ws, h⟩
    obtain ⟨text, tail, rfl, htail, htext, hwords⟩ := (words_eq_concat_iff unbroken_defaultWord).1 h
    obtain ⟨front, gap, rfl, hgap, hfront, -⟩ := (words_eq_concat_iff unbroken_asWord).1 hwords
    refine ⟨front, gap, tail, rfl, ?_, hgap, htail, hfront⟩
    rintro rfl
    -- then `default` would stand right behind `as`
    exact absurd (htext 's' (by simp [asWord])) (by decide)
  · rintro ⟨front, gap, tail, rfl, hne, hgap, htail, hfront⟩
    refine ⟨words front, (words_eq_concat_iff unbroken_defaultWord).2
      ⟨front ++ asWord ++ gap, tail, rfl, htail, ?_, ?_⟩⟩
    · intro c hc
      rw [List.getLast?_append_of_ne_nil _ hne] at hc
      exact hgap c (List.mem_of_getLast? hc)
    · exact (words_eq_concat_iff unbroken_asWord).2 ⟨front, gap, rfl, hgap, hfront, rfl⟩

theorem listsDefault_iff {s : List Char} : listsDefault s ↔ ListsAsDefault s := by
  have hany : ∀ list, (pieces (· == ',') list).any isDefaultItem ↔
      ∃ item, IsItem list item ∧ EndsAsDefault item := by
    intro list
    simp only [List.any_eq_true, mem_pieces_comma_iff, isDefaultItem_iff]
  constructor
  · intro h
    unfold listsDefault at h
    split at h
    · next r =>
      refine ⟨r.takeWhile (· != '\x7d'), r.dropWhile (· != '\x7d'), ?_, ?_, ?_, (hany _).1 h⟩
      · rw [List.cons_append, List.takeWhile_append_dropWhile]
      · intro hmem
        exact absurd (List.mem_takeWhile_imp hmem) (by simp)
      · intro c hc
        have hstop := List.head?_dropWhile_not (· != '\x7d') r
        rw [hc] at hstop
        simpa using hstop
    · cases h
  · rintro ⟨list, rest, rfl, hlist, hrest, hitem⟩
    have htake : (list ++ rest).takeWhile (· != '\x7d') = list := by
      refine takeWhile_append_of_stop ?_ ?_
      · intro c hc
        exact bne_iff_ne.2 fun heq => hlist (heq ▸ hc)
      · intro c hc
        simp [hrest c hc]
    show (pieces (· == ',') ((list ++ rest).takeWhile (· != '\x7d'))).any isDefaultItem
    rw [htake]
    exact (hany list).2 hitem

/-- No character of a word but the dollar sign stands at the start of the text. -/
def BeginsOutsideWord (s : List Char) : Prop := ∀ c ∈ s.head?, ¬ (isWord c || c == '_')

theorem namesDefault_iff {s : List Char} :
    namesDefault s ↔ BeginsDefault BeginsOutsideWord s := by
  have hbegins : ∀ rest, beginsOutsideWord rest ↔ BeginsOutsideWord rest := by
    intro rest
    cases rest <;> simp [beginsOutsideWord, BeginsOutsideWord]
  unfold namesDefault
  constructor
  · intro h
    split at h
    · next rest hcut => exact ⟨rest, eq_append_of_afterPrefix? hcut, (hbegins rest).1 h⟩
    · cases h
  · rintro ⟨rest, rfl, hrest⟩
    rw [afterPrefix?_append]
    exact (hbegins rest).2 hrest

/-- What the detection takes for the rest of a default export. -/
def LooksDefault (s : List Char) : Prop := BeginsDefault BeginsOutsideWord s ∨ ListsAsDefault s

theorem LooksDefault.solid {s : List Char} (h : LooksDefault s) : ∀ c ∈ s.head?, ¬ isBlank c := by
  intro c hc
  rcases h with ⟨t, rfl, -⟩ | ⟨list, t, rfl, -⟩
  · obtain rfl : 'd' = c := Option.some.inj hc
    decide
  · obtain rfl : '\x7b' = c := Option.some.inj hc
    decide

theorem isDefaultExport_iff {after : List Char} :
    isDefaultExport after ↔ AfterBlanks LooksDefault after := by
  have hlooks : ∀ s, (namesDefault s || listsDefault s) ↔ LooksDefault s := by
    intro s
    rw [Bool.or_eq_true, namesDefault_iff, listsDefault_iff, LooksDefault]
  unfold isDefaultExport trimStart
  constructor
  · intro h
    refine ⟨after.takeWhile isBlank, after.dropWhile isBlank, ?_, ?_, (hlooks _).1 h⟩
    · exact List.takeWhile_append_dropWhile.symm
    · intro c hc
      exact List.mem_takeWhile_imp hc
  · rintro ⟨gap, rest, rfl, hgap, hrest⟩
    rw [dropWhile_append_of_stop hgap hrest.solid]
    exact (hlooks rest).2 hrest

/-! ## The search -/

/-- Two occurrences of `export` do not overlap. -/
theorem length_le_of_exports {b r before after : List Char}
    (h : b ++ exportWord ++ r = before ++ exportWord ++ after) (hlt : b.length < before.length) :
    b.length + exportWord.length ≤ before.length := by
  rw [List.append_assoc, List.append_assoc] at h
  obtain ⟨w, hw⟩ := List.prefix_of_prefix_length_le ⟨_, h⟩ ⟨_, rfl⟩ hlt.le
  subst hw
  rw [List.append_assoc, List.append_cancel_left_eq] at h
  rw [List.length_append] at hlt ⊢
  -- no character of `export` but the first is the first
  match w with
  | [] => simp at hlt
  | [_] | [_, _] | [_, _, _] | [_, _, _, _] | [_, _, _, _, _] => simp [exportWord] at h
  | _ :: _ :: _ :: _ :: _ :: _ :: t => simp [exportWord]

/-- An `export` behind which the search takes what follows for a default export: no name runs up to
it, or another `export` stands directly before it. -/
structure Taken (before after : List Char) : Prop where
  start : EndsOutsideName before ∨ exportWord <:+ before
  rest : AfterBlanks LooksDefault after

theorem exportWord_suffix_append {b t : List Char} :
    exportWord <:+ b ++ exportWord ++ t ↔ t = [] ∨ exportWord <:+ t := by
  constructor
  · rintro ⟨x, hx⟩
    by_cases ht : t = []
    · exact .inl ht
    · have hpos := List.length_pos_iff.2 ht
      have hlength := congrArg List.length hx
      rw [List.length_append, List.length_append, List.length_append] at hlength
      have hexports : b ++ exportWord ++ t = x ++ exportWord ++ [] := by rw [List.append_nil, hx]
      have hapart := length_le_of_exports hexports (by omega)
      have hsuffix : t <:+ x ++ exportWord := ⟨_, hx.symm⟩
      exact .inr (List.suffix_of_suffix_length_le ⟨x, rfl⟩ hsuffix (by omega))
  · rintro (rfl | ht)
    · rw [List.append_nil]
      exact ⟨b, rfl⟩
    · exact ht.trans ⟨_, rfl⟩

/-- Whether the search takes an `export` does not depend on what stands before the one before it. -/
theorem taken_append {b t after : List Char} :
    Taken (b ++ exportWord ++ t) after ↔ Taken t after := by
  have hstart : EndsOutsideName (b ++ exportWord ++ t) ∨ exportWord <:+ b ++ exportWord ++ t ↔
      EndsOutsideName t ∨ exportWord <:+ t := by
    rw [exportWord_suffix_append]
    by_cases ht : t = []
    · subst ht
      simp [EndsOutsideName]
    · unfold EndsOutsideName
      rw [List.getLast?_append_of_ne_nil _ ht]
      simp only [ht, false_or]
  exact ⟨fun h => ⟨hstart.1 h.start, h.rest⟩, fun h => ⟨hstart.2 h.start, h.rest⟩⟩

/-- The search finds exactly the occurrences of `export` that it takes, whatever stands before. -/
theorem hasDefaultExport_iff {code : List Char} : hasDefaultExport code ↔
    ∃ before after, code = before ++ exportWord ++ after ∧ Taken before after := by
  fun_induction hasDefaultExport code with
  | case1 code hnone =>
    refine iff_of_false (by simp) ?_
    rintro ⟨before, after, rfl, -⟩
    have hsome := cutFirst?_isSome before exportWord after
    rw [hnone] at hsome
    cases hsome
  | case2 code b a hcut ih =>
    have hcode := eq_of_cutFirst? hcut
    rw [Bool.or_eq_true, Bool.and_eq_true, endsOutsideWord_iff, isDefaultExport_iff, ih]
    constructor
    · rintro (⟨hb, ha⟩ | ⟨before, after, rfl, htaken⟩)
      · exact ⟨b, a, hcode, .inl hb, ha⟩
      · refine ⟨b ++ exportWord ++ before, after, ?_, taken_append.2 htaken⟩
        rw [hcode]
        simp only [List.append_assoc]
    · rintro ⟨before, after, heq, htaken⟩
      rcases (length_le_of_cutFirst? hcut heq).lt_or_eq with hlt | hlength
      · -- a later occurrence: it lies in what follows the first one
        have hexports := hcode.symm.trans heq
        have hapart := length_le_of_exports hexports hlt
        rw [← List.length_append] at hapart
        have hprefix : before <+: b ++ exportWord ++ a := by
          rw [hexports, List.append_assoc]
          exact List.prefix_append _ _
        obtain ⟨t, rfl⟩ := List.prefix_of_prefix_length_le (List.prefix_append _ a) hprefix hapart
        simp only [List.append_assoc, List.append_cancel_left_eq] at hexports
        refine .inr ⟨t, after, ?_, taken_append.1 htaken⟩
        rw [hexports, List.append_assoc]
      · obtain ⟨hfront, rfl⟩ := List.append_inj (hcode.symm.trans heq) (by simp [hlength])
        obtain ⟨rfl, -⟩ := List.append_inj hfront hlength
        rcases htaken.start with hb | ⟨x, rfl⟩
        · exact .inl ⟨hb, htaken.rest⟩
        · -- an occurrence before the first one
          have hearlier : code = x ++ exportWord ++ (exportWord ++ a) := by simp [hcode]
          have hle := length_le_of_cutFirst? hcut hearlier
          have hpos : 0 < exportWord.length := by decide
          rw [List.length_append] at hle
          omega

theorem formatOf_eq_modules_iff {source : String} : formatOf source = .modules ↔
    ∃ before after, blanked source.toList = before ++ exportWord ++ after ∧ Taken before after := by
  rw [← hasDefaultExport_iff, formatOf]
  split_ifs with h <;> simp [h]

/-! ## Default exports and lookalikes -/

/-- What makes an export the default: the word `default`, or a list with an item so named. -/
def ExportsDefault (s : List Char) : Prop := BeginsDefault BeginsOutsideName s ∨ ListsAsDefault s

theorem BeginsOutsideName.outsideWord {s : List Char} (h : BeginsOutsideName s) :
    BeginsOutsideWord s := by
  intro c hc hword
  exact h c hc (by rw [inName, hword, Bool.true_or])

theorem ExportsDefault.looksDefault {s : List Char} (h : ExportsDefault s) : LooksDefault s := by
  rcases h with ⟨rest, rfl, hrest⟩ | hlist
  · exact .inl ⟨rest, rfl, hrest.outsideWord⟩
  · exact .inr hlist

theorem AfterBlanks.imp {P Q : List Char → Prop} {s : List Char} (h : AfterBlanks P s)
    (himp : ∀ t, P t → Q t) : AfterBlanks Q s := by
  obtain ⟨gap, rest, rfl, hgap, hrest⟩ := h
  exact ⟨gap, rest, rfl, hgap, himp rest hrest⟩

/-- A script is a module wherever in its code a default export stands: an `export` that no name runs
up to, and behind it and any blanks the word `default` or a list with a default in it. -/
theorem formatOf_eq_modules {source : String} {before after : List Char}
    (hcode : blanked source.toList = before ++ exportWord ++ after)
    (hstart : EndsOutsideName before) (hafter : AfterBlanks ExportsDefault after) :
    formatOf source = .modules := by
  refine formatOf_eq_modules_iff.2 ⟨before, after, hcode, .inl hstart, ?_⟩
  exact hafter.imp fun _ => ExportsDefault.looksDefault

/-- A named export and a longer name before a list with a default, which a comment and a line feed
part from `export`. -/
def lateExport : String := "export { a };\nmyexport = 1;\nexport /* b */\n{ c, d as default }"

theorem formatOf_eq_modules_late :
    blanked lateExport.toList = "export { a };\nmyexport = 1;\n".toList ++ exportWord ++
      "  \n{ c, d as default }".toList ∧
    EndsOutsideName "export { a };\nmyexport = 1;\n".toList ∧
    AfterBlanks ExportsDefault "  \n{ c, d as default }".toList ∧
    formatOf lateExport = .modules := by
  have hcode : blanked lateExport.toList = "export { a };\nmyexport = 1;\n".toList ++ exportWord ++
      "  \n{ c, d as default }".toList := by decide
  have hstart : EndsOutsideName "export { a };\nmyexport = 1;\n".toList := by
    intro c hc
    obtain rfl : '\n' = c := Option.some.inj hc
    decide +kernel
  have hspace : ∀ c ∈ [' '], isBlank c := List.all_eq_true.1 rfl
  have hitem : EndsAsDefault " d as default ".toList := by
    refine ⟨" d ".toList, [' '], [' '], rfl, by decide, hspace, hspace, ?_⟩
    intro c hc
    exact hspace c (by simpa using hc.symm)
  have hitems : IsItem " c, d as default ".toList " d as default ".toList := by
    refine ⟨" c,".toList, [], rfl, by decide, ?_, by simp⟩
    intro c hc
    exact (Option.some.inj hc).symm
  have hlist : ListsAsDefault "{ c, d as default }".toList := by
    refine ⟨" c, d as default ".toList, ['\x7d'], rfl, by decide, ?_, _, hitems, hitem⟩
    intro c hc
    exact (Option.some.inj hc).symm
  have hafter : AfterBlanks ExportsDefault "  \n{ c, d as default }".toList :=
    ⟨"  \n".toList, _, rfl, List.all_eq_true.1 rfl, .inr hlist⟩
  exact ⟨hcode, hstart, hafter, formatOf_eq_modules hcode hstart hafter⟩

/-- A default export of which `export` is a whole word. -/
structure WholeExport (before after : List Char) : Prop where
  start : EndsOutsideName before
  stop : BeginsOutsideName after
  rest : AfterBlanks ExportsDefault after

/-- What the search takes for a default export although it is none. -/
inductive Lookalike (before after : List Char) : Prop where
  /-- Another `export` stands directly before this one. -/
  | doubled (hstart : exportWord <:+ before) (hrest : AfterBlanks LooksDefault after)
  /-- Nothing stands between `export` and `default`. -/
  | joined (hstart : EndsOutsideName before) (hrest : BeginsDefault BeginsOutsideWord after)
  /-- A dollar sign stands directly behind `default`. -/
  | dollar (hstart : EndsOutsideName before)
      (hrest : AfterBlanks (BeginsDefault fun rest => rest.head? = some '$') after)

theorem beginsOutsideName_of_gap {gap rest : List Char} (hne : gap ≠ [])
    (hgap : ∀ c ∈ gap, isBlank c) : BeginsOutsideName (gap ++ rest) := by
  intro c hc
  rw [List.head?_append_of_ne_nil _ hne] at hc
  exact not_inName_of_isBlank (hgap c (List.mem_of_mem_head? hc))

theorem beginsOutsideName_of_list {s : List Char} (h : ListsAsDefault s) : BeginsOutsideName s := by
  obtain ⟨list, rest, rfl, -⟩ := h
  intro c hc
  obtain rfl : '\x7b' = c := Option.some.inj hc
  decide +kernel

theorem beginsOutsideName_of_word {s : List Char} (h : BeginsOutsideWord s)
    (hdollar : s.head? ≠ some '$') : BeginsOutsideName s := by
  intro c hc hname
  rcases Bool.or_eq_true_iff.1 hname with hword | heq
  · exact h c hc hword
  · obtain rfl := eq_of_beq heq
    exact hdollar hc

theorem beginsOutsideWord_of_dollar {s : List Char} (h : s.head? = some '$') :
    BeginsOutsideWord s := by
  intro c hc
  obtain rfl : '$' = c := Option.some.inj (h.symm.trans hc)
  decide +kernel

/-- What the search takes is a default export or a lookalike. -/
theorem taken_iff {before after : List Char} :
    Taken before after ↔ WholeExport before after ∨ Lookalike before after := by
  constructor
  · rintro ⟨hstart | hdoubled, hrest⟩
    · obtain ⟨gap, rest, rfl, hgap, ⟨t, rfl, ht⟩ | hlist⟩ := hrest
      · by_cases hne : gap = []
        · subst hne
          exact .inr (.joined hstart ⟨t, rfl, ht⟩)
        · by_cases hdollar : t.head? = some '$'
          · exact .inr (.dollar hstart ⟨gap, _, rfl, hgap, t, rfl, hdollar⟩)
          · refine .inl ⟨hstart, beginsOutsideName_of_gap hne hgap, gap, _, rfl, hgap, .inl ⟨t, rfl, ?_⟩⟩
            exact beginsOutsideName_of_word ht hdollar
      · refine .inl ⟨hstart, ?_, gap, rest, rfl, hgap, .inr hlist⟩
        by_cases hne : gap = []
        · subst hne
          exact beginsOutsideName_of_list hlist
        · exact beginsOutsideName_of_gap hne hgap
    · exact .inr (.doubled hdoubled hrest)
  · rintro (⟨hstart, -, hrest⟩ | hdoubled | hjoined | hdollar)
    · exact ⟨.inl hstart, hrest.imp fun _ => ExportsDefault.looksDefault⟩
    · exact ⟨.inr hdoubled, ‹_›⟩
    · exact ⟨.inl hjoined, [], after, rfl, by simp, .inl ‹_›⟩
    · refine ⟨.inl hdollar, AfterBlanks.imp ‹_› ?_⟩
      rintro t ⟨rest, rfl, hrest⟩
      exact .inl ⟨rest, rfl, beginsOutsideWord_of_dollar hrest⟩

/-- A lookalike is not a default export. -/
theorem Lookalike.not_wholeExport {before after : List Char} (h : Lookalike before after) :
    ¬ WholeExport before after := by
  rintro ⟨hstart, hstop, gap, rest, rfl, hgap, hrest⟩
  rcases h with ⟨⟨x, rfl⟩, -⟩ | ⟨-, t, ht, -⟩ | ⟨-, gap', rest', heq, hgap', t, rfl, ht⟩
  · exact hstart 't' (by simp [exportWord]) (by decide +kernel)
  · rw [ht] at hstop
    exact hstop 'd' rfl (by decide +kernel)
  · -- both are what is left after the blanks
    have hdollar : LooksDefault (defaultWord ++ t) := .inl ⟨t, rfl, beginsOutsideWord_of_dollar ht⟩
    have hsame : rest = defaultWord ++ t := by
      rw [← dropWhile_append_of_stop hgap hrest.looksDefault.solid, heq,
        dropWhile_append_of_stop hgap' hdollar.solid]
    rcases hrest with ⟨t', rfl, ht'⟩ | ⟨list, r, rfl, -⟩
    · obtain rfl := List.append_cancel_left hsame
      exact ht' '$' ht (by decide +kernel)
    · cases hsame

/-- A script counts as a module exactly if its code has a default export or a lookalike of one. -/
theorem formatOf_account (source : String) : formatOf source = .modules ↔
    ∃ before after, blanked source.toList = before ++ exportWord ++ after ∧
      (WholeExport before after ∨ Lookalike before after) := by
  rw [formatOf_eq_modules_iff]
  refine exists₂_congr fun before after => and_congr_right fun _ => ?_
  exact taken_iff

/-- A script that calls a function with a telling name. -/
def joinedWords : String := "exportdefault();"

/-- A script counts as a module although its code has no default export. -/
theorem not_wholeExport_joinedWords : formatOf joinedWords = .modules ∧
    ¬ ∃ before after, blanked joinedWords.toList = before ++ exportWord ++ after ∧
      WholeExport before after := by
  have hcode : blanked joinedWords.toList = ['e'] ++ 'x' :: "portdefault();".toList := by decide
  constructor
  · decide +kernel
  · rintro ⟨before, after, heq, -, hstop, -⟩
    have hsplit : ['e'] ++ 'x' :: "portdefault();".toList =
        (before ++ ['e']) ++ 'x' :: ("port".toList ++ after) := by
      rw [← hcode, heq]
      simp [exportWord]
    -- there is only one `x`
    obtain ⟨-, -, hrest⟩ := (List.append_cons_inj_of_notMem (by decide) (by decide)).1 hsplit
    have hafter : "default();".toList = after := (List.append_right_inj "port".toList).1 hrest
    have hd : inName 'd' := by decide +kernel
    exact hstop 'd' (by rw [← hafter]; rfl) hd

end WorkerEnv.Script
