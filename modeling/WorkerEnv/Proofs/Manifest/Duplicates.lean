/-
# WorkerEnv.Proofs.Manifest.Duplicates -- where a name that is used twice is marked

A name that is used twice is looked for in quotes first and as a key only if it nowhere stands in
quotes, and of several such places the last one is marked. So the later of two occurrences is marked
if both are of one form, or if it is the one in quotes. If only the earlier one stands in quotes, that
one is marked, and if neither has a form that is looked for, none.
-/

import WorkerEnv.Proofs.Manifest.Position
import WorkerEnv.Proofs.Manifest.Validation

namespace WorkerEnv.Manifest

open Text

/-! ## Occurrences -/

/-- A name stands in a text behind the given stretch. -/
def Occurs (text name before : List Char) : Prop := ∃ rest, text = before ++ name ++ rest

/-- A name stands in a text behind two stretches, and nowhere else. -/
structure OccursTwice (text name p q : List Char) : Prop where
  first : Occurs text name p
  second : Occurs text name q
  order : p.length < q.length
  only : ∀ before, Occurs text name before → before = p ∨ before = q

/-- A name stands in double quotes behind the given stretch. -/
def QuotedAt (text name before : List Char) : Prop :=
  ∃ outer rest, before = outer ++ [quoteMark] ∧ text = outer ++ inQuotes name ++ rest

/-- A name stands behind the given stretch as the key of a line. -/
def LineKeyAt (text name before : List Char) : Prop :=
  ∃ earlier line later inline, IsLine text earlier line later ∧ KeyAt name line inline ∧
    before = earlier ++ inline

/-- The last of the stretches that have a property. -/
def IsLast (P : List Char → Prop) (before : List Char) : Prop :=
  P before ∧ ∀ b, P b → b.length ≤ before.length

variable {text name before p q : List Char}

theorem QuotedAt.occurs (h : QuotedAt text name before) : Occurs text name before := by
  obtain ⟨outer, rest, rfl, htext⟩ := h
  exact ⟨quoteMark :: rest, by simpa [inQuotes] using htext⟩

theorem LineKeyAt.occurs (h : LineKeyAt text name before) : Occurs text name before := by
  obtain ⟨earlier, line, later, inline, hline, hkey, rfl⟩ := h
  obtain ⟨rest, rfl⟩ := hkey.exists_eq
  exact ⟨rest ++ later, by simp [hline.eq]⟩

/-- Of two occurrences the earlier one takes fewer bytes to reach. -/
theorem OccursTwice.byteSize_lt (h : OccursTwice text name p q) : byteSize p < byteSize q := by
  obtain ⟨r, hr⟩ := h.first
  obtain ⟨s, hs⟩ := h.second
  have hp : p <+: text := ⟨name ++ r, by rw [hr, List.append_assoc]⟩
  have hq : q <+: text := ⟨name ++ s, by rw [hs, List.append_assoc]⟩
  obtain ⟨between, rfl⟩ := List.prefix_of_prefix_length_le hp hq h.order.le
  have hne : between ≠ [] := by
    rintro rfl
    have horder := h.order
    simp at horder
  have hpos := byteSize_pos hne
  rw [byteSize_append]
  omega

/-- The last of some occurrences is the second of the two, unless only the first is among them. -/
theorem OccursTwice.eq_of_isLast (h : OccursTwice text name p q) {P : List Char → Prop}
    (hP : ∀ b, P b → Occurs text name b) (hlast : IsLast P before) :
    (P q ∧ before = q) ∨ (¬ P q ∧ P p ∧ before = p) := by
  obtain ⟨hbefore, hlater⟩ := hlast
  rcases h.only before (hP before hbefore) with rfl | rfl
  · refine .inr ⟨fun hq => ?_, hbefore, rfl⟩
    exact absurd (hlater q hq) (Nat.not_le.2 h.order)
  · exact .inl ⟨hbefore, rfl⟩

/-! ## The occurrence that is found -/

theorem LastQuoted.isLast (h : LastQuoted text name before) :
    IsLast (QuotedAt text name) (before ++ [quoteMark]) := by
  obtain ⟨rest, htext⟩ := h.occurs
  refine ⟨⟨before, rest, rfl, htext⟩, ?_⟩
  rintro _ ⟨outer, r, rfl, hr⟩
  simpa using h.last outer r hr

theorem LastWithKey.isLast {line after inline : List Char}
    (h : LastWithKey text name before line after) (hkey : KeyAt name line inline) :
    IsLast (LineKeyAt text name) (before ++ inline) := by
  refine ⟨⟨before, line, after, inline, h.isLine, hkey, rfl⟩, ?_⟩
  rintro _ ⟨before', line', after', inline', hline', hkey', rfl⟩
  rcases h.isLine.compare hline' with ⟨rfl, rfl, rfl⟩ | ⟨between, -, hlater⟩ | ⟨between, rfl, -⟩
  · rw [hkey.unique hkey']
  · exact absurd hkey'.hasKey (h.last _ _ _ hlater)
  · -- The other line comes before this one, and the key stands on it.
    obtain ⟨rest, rfl⟩ := hkey'.exists_eq
    simp only [List.length_append]
    omega

/-- A name is found where it stands last in quotes; if it never does, where it stands last as a key;
and otherwise nowhere. -/
theorem placeOfName_spec (text name : List Char) :
    (∃ before, IsLast (QuotedAt text name) before ∧
      placeOfName text name = some ⟨byteSize before, byteSize name⟩) ∨
    (∀ b, ¬ QuotedAt text name b) ∧
      ((∃ before, IsLast (LineKeyAt text name) before ∧
        placeOfName text name = some ⟨byteSize before, byteSize name⟩) ∨
      (∀ b, ¬ LineKeyAt text name b) ∧ placeOfName text name = none) := by
  by_cases hquoted : ∃ b, QuotedAt text name b
  · obtain ⟨_, outer, rest, -, htext⟩ := hquoted
    obtain ⟨before, hlast⟩ := exists_lastQuoted htext
    refine .inl ⟨before ++ [quoteMark], hlast.isLast, ?_⟩
    rw [hlast.placeOfName, byteSize_append]
    rfl
  · have hnone : ∀ b r, text ≠ b ++ inQuotes name ++ r := fun b r htext =>
      hquoted ⟨_, b, r, rfl, htext⟩
    refine .inr ⟨not_exists.1 hquoted, ?_⟩
    rw [placeOfName_of_not_quoted hnone]
    by_cases hkeyed : ∃ b, LineKeyAt text name b
    · obtain ⟨_, earlier, l, later, _, hline, hkey, -⟩ := hkeyed
      obtain ⟨before, line, after, hlast⟩ := exists_lastWithKey hline hkey.hasKey
      obtain ⟨inline, hinline⟩ := hlast.hasKey.exists_keyAt
      exact .inl ⟨before ++ inline, hlast.isLast hinline, hlast.placeOfKey hinline⟩
    · refine .inr ⟨not_exists.1 hkeyed, placeOfKey_eq_none_iff.2 ?_⟩
      intro b l a hline hkey
      obtain ⟨inline, hinline⟩ := hkey.exists_keyAt
      exact hkeyed ⟨_, b, l, a, inline, hline, hinline, rfl⟩

/-- Which of two occurrences of a name is found. -/
theorem OccursTwice.placeOfName_iff (h : OccursTwice text name p q) :
    (placeOfName text name = some ⟨byteSize q, byteSize name⟩ ↔
      QuotedAt text name q ∨ ¬ QuotedAt text name p ∧ LineKeyAt text name q) ∧
    (placeOfName text name = some ⟨byteSize p, byteSize name⟩ ↔
      ¬ QuotedAt text name q ∧
        (QuotedAt text name p ∨ ¬ LineKeyAt text name q ∧ LineKeyAt text name p)) ∧
    (placeOfName text name = none ↔ ¬ QuotedAt text name p ∧ ¬ QuotedAt text name q ∧
      ¬ LineKeyAt text name p ∧ ¬ LineKeyAt text name q) := by
  have hlt := h.byteSize_lt
  have hpq : byteSize p ≠ byteSize q := hlt.ne
  rcases placeOfName_spec text name with ⟨b, hlast, hplace⟩ |
    ⟨hquoted, ⟨b, hlast, hplace⟩ | ⟨hkeyed, hplace⟩⟩
  · rcases h.eq_of_isLast (fun _ => QuotedAt.occurs) hlast with ⟨hq, rfl⟩ | ⟨hq, hp, rfl⟩
    · simp [hplace, hq, hpq.symm]
    · simp [hplace, hq, hp, hpq]
  · rcases h.eq_of_isLast (fun _ => LineKeyAt.occurs) hlast with ⟨hq, rfl⟩ | ⟨hq, hp, rfl⟩
    · simp [hplace, hquoted, hq, hpq.symm]
    · simp [hplace, hquoted, hq, hp, hpq]
  · simp [hplace, hquoted, hkeyed]

/-! ## The label -/

theorem place_of_duplicate {text file file' name : String} {first second : Kind} {place : Option Span}
    (h : parse text file = .error (.duplicate file' name first second place)) :
    place = placeOfName text.toList name.toList := by
  rcases problem_of_parse h with hproblem | ⟨offence, hproblem⟩
  · cases hproblem
  · cases offence with
    | unnamed kind => cases hproblem
    | duplicate _ _ _ =>
      cases hproblem
      rfl

/-- A name that is used twice and stands at two places of the text is marked at the second one if that
is in quotes, or is a key and the first one is not in quotes; at the first one if that is in quotes
and the second is not, or is a key and the second is neither; and not at all if none of the two is in
quotes or a key. -/
theorem duplicate_account {text file file' name : String} {first second : Kind} {place : Option Span}
    {p q : List Char} (h : parse text file = .error (.duplicate file' name first second place))
    (htwo : OccursTwice text.toList name.toList p q) :
    let labels := (Problem.duplicate file' name first second place).labels
    let size := byteSize name.toList
    (labels = [("duplicate binding", ⟨byteSize q, size⟩)] ↔ QuotedAt text.toList name.toList q ∨
      ¬ QuotedAt text.toList name.toList p ∧ LineKeyAt text.toList name.toList q) ∧
    (labels = [("duplicate binding", ⟨byteSize p, size⟩)] ↔ ¬ QuotedAt text.toList name.toList q ∧
      (QuotedAt text.toList name.toList p ∨
        ¬ LineKeyAt text.toList name.toList q ∧ LineKeyAt text.toList name.toList p)) ∧
    (labels = [] ↔ ¬ QuotedAt text.toList name.toList p ∧ ¬ QuotedAt text.toList name.toList q ∧
      ¬ LineKeyAt text.toList name.toList p ∧ ¬ LineKeyAt text.toList name.toList q) := by
  intro labels size
  have hsome : ∀ span, labels = [("duplicate binding", span)] ↔ place = some span := by
    intro span
    cases place <;> simp [labels, Problem.labels]
  have hnone : labels = [] ↔ place = none := by
    cases place <;> simp [labels, Problem.labels]
  rw [hsome, hsome, hnone, place_of_duplicate h]
  exact htwo.placeOfName_iff

/-! ## Finding the occurrences -/

/-- The numbers of characters before the occurrences of a name. -/
def positions (text name : List Char) : List Nat :=
  (List.range (text.length + 1)).filter fun n => (afterPrefix? name (text.drop n)).isSome

theorem occurs_iff_positions :
    Occurs text name before ↔ ∃ n ∈ positions text name, before = text.take n := by
  constructor
  · rintro ⟨rest, rfl⟩
    refine ⟨before.length, List.mem_filter.2 ⟨List.mem_range.2 ?_, ?_⟩, ?_⟩
    · simp only [List.length_append]
      omega
    · simp [List.append_assoc]
    · simp [List.append_assoc]
  · rintro ⟨n, hn, rfl⟩
    obtain ⟨rest, hrest⟩ := Option.isSome_iff_exists.1 (List.mem_filter.1 hn).2
    refine ⟨rest, ?_⟩
    rw [List.append_assoc, ← eq_append_of_afterPrefix? hrest, List.take_append_drop]

theorem OccursTwice.of_positions {m n : Nat} (h : positions text name = [m, n]) :
    OccursTwice text name (text.take m) (text.take n) := by
  have hsorted : (positions text name).Pairwise (· < ·) := List.pairwise_lt_range.filter _
  have hmem : ∀ k ∈ positions text name, k ≤ text.length := by
    intro k hk
    exact Nat.le_of_lt_succ (List.mem_range.1 (List.mem_filter.1 hk).1)
  rw [h] at hsorted hmem
  have hlt : m < n := by simpa using hsorted
  have hm := hmem m (by simp)
  have hn := hmem n (by simp)
  refine ⟨?_, ?_, ?_, ?_⟩
  · exact occurs_iff_positions.2 ⟨m, by simp [h], rfl⟩
  · exact occurs_iff_positions.2 ⟨n, by simp [h], rfl⟩
  · simp only [List.length_take]
    omega
  · intro before hbefore
    obtain ⟨k, hk, rfl⟩ := occurs_iff_positions.1 hbefore
    rw [h] at hk
    rcases List.mem_cons.1 hk with rfl | hk
    · exact .inl rfl
    · exact .inr (by rw [List.mem_singleton.1 hk])

/-! ## The first occurrence in quotes -/

/-- A name stands as a value in quotes of one form or the other, or as a key before an equals sign. -/
def Declares (text name before : List Char) : Prop :=
  (∃ outer mark rest, (mark = quoteMark ∨ mark = '\x27') ∧ before = outer ++ [mark] ∧
    text = outer ++ mark :: (name ++ mark :: rest)) ∨
  ∃ gap rest, (∀ c ∈ gap, isBlank c) ∧ text = before ++ name ++ (gap ++ '=' :: rest)

/-- A name that is used twice and stands in the text only where it is declared is marked where it is
declared for the second time. -/
def MarksSecond (text file : String) : Prop :=
  ∀ file' name first second place p q,
    parse text file = .error (.duplicate file' name first second place) →
    OccursTwice text.toList name.toList p q →
    Declares text.toList name.toList p → Declares text.toList name.toList q →
    (Problem.duplicate file' name first second place).labels =
      [("duplicate binding", ⟨byteSize q, byteSize name.toList⟩)]

/-- A name in quotes that comes again as a key. -/
def quotedFirst : String := "kv_namespaces = [\x7b binding = \"MODE\" \x7d]\n[vars]\nMODE = 1\n"

theorem parse_quotedFirst : parse quotedFirst "wrangler.toml" =
    .error (.duplicate "wrangler.toml" "MODE" .kvNamespace .plainVar (some ⟨30, 4⟩)) := by
  have hproblem : problem? quotedFirst "wrangler.toml" =
      some (.duplicate "wrangler.toml" "MODE" .kvNamespace .plainVar (some ⟨30, 4⟩)) := by
    decide +kernel
  exact problem?_eq_some_iff.1 hproblem

theorem occursTwice_quotedFirst : OccursTwice quotedFirst.toList "MODE".toList
    (quotedFirst.toList.take 30) (quotedFirst.toList.take 46) := by
  have hpositions : positions quotedFirst.toList "MODE".toList = [30, 46] := by decide +kernel
  exact .of_positions hpositions

theorem duplicate_account_quotedFirst :
    parse quotedFirst "wrangler.toml" =
      .error (.duplicate "wrangler.toml" "MODE" .kvNamespace .plainVar (some ⟨30, 4⟩)) ∧
    OccursTwice quotedFirst.toList "MODE".toList (quotedFirst.toList.take 30)
      (quotedFirst.toList.take 46) ∧
    ¬ QuotedAt quotedFirst.toList "MODE".toList (quotedFirst.toList.take 46) ∧
    (QuotedAt quotedFirst.toList "MODE".toList (quotedFirst.toList.take 30) ∨
      ¬ LineKeyAt quotedFirst.toList "MODE".toList (quotedFirst.toList.take 46) ∧
        LineKeyAt quotedFirst.toList "MODE".toList (quotedFirst.toList.take 30)) := by
  have hlabels : (Problem.duplicate "wrangler.toml" "MODE" .kvNamespace .plainVar
      (some ⟨30, 4⟩)).labels = [("duplicate binding",
        ⟨byteSize (quotedFirst.toList.take 30), byteSize "MODE".toList⟩)] := by
    decide
  exact ⟨parse_quotedFirst, occursTwice_quotedFirst,
    (duplicate_account parse_quotedFirst occursTwice_quotedFirst).2.1.1 hlabels⟩

theorem not_marksSecond_quotedFirst : ¬ MarksSecond quotedFirst "wrangler.toml" := by
  intro h
  have hfirst : Declares quotedFirst.toList "MODE".toList (quotedFirst.toList.take 30) :=
    .inl ⟨quotedFirst.toList.take 29, quoteMark, quotedFirst.toList.drop 35, .inl rfl, by decide,
      by decide⟩
  have hsecond : Declares quotedFirst.toList "MODE".toList (quotedFirst.toList.take 46) :=
    .inr ⟨[' '], quotedFirst.toList.drop 52, List.forall_mem_singleton.2 rfl, by decide⟩
  have hlabels := h _ _ _ _ _ _ _ parse_quotedFirst occursTwice_quotedFirst hfirst hsecond
  exact absurd hlabels (by decide)

end WorkerEnv.Manifest
