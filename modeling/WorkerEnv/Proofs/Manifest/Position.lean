/-
# WorkerEnv.Proofs.Manifest.Position -- what the search for a key or a name finds

A key is looked for at three spots of a line, and the first one counts where it stands and is closed
by what follows: at the start of the line, and in a header behind two brackets and behind one. The
last line that has the key decides. A name is looked for in quotes first, and there the last
occurrence counts. Whatever is found covers an occurrence of the key or the name. `keyByBytes` goes by
positions in bytes instead, and cuts the text at sums of lengths; it never cuts where there is no
position, and comes to the same.
-/

import Mathlib.Data.List.TakeWhile
import WorkerEnv.Manifest.Place
import WorkerEnv.Proofs.Text.Places
import WorkerEnv.Proofs.Text.Words

namespace WorkerEnv.Manifest

open Text

/-! ## Spots of a line -/

/-- Where on a line a key is looked for. -/
inductive Spot where
  | start
  | doubled
  | single
  deriving DecidableEq, Repr

namespace Spot

/-- What has to stand between the blanks of a line and the stretch that is searched. -/
def opening : Spot → List Char
  | start => []
  | doubled => ['[', '[']
  | single => ['[']

/-- The spots, in the order in which they are tried. -/
def all : List Spot := [start, doubled, single]

/-- The place of a spot in that order. -/
def rank : Spot → Nat
  | start => 0
  | doubled => 1
  | single => 2

theorem mem_all (spot : Spot) : spot ∈ all := by cases spot <;> decide

theorem find?_eq_some_iff {p : Spot → Bool} {spot : Spot} :
    all.find? p = some spot ↔ p spot ∧ ∀ spot', spot'.rank < spot.rank → ¬ p spot' := by
  have hall : ∀ q : Spot → Prop, (∀ spot', q spot') ↔ q start ∧ q doubled ∧ q single := by
    intro q
    refine ⟨fun h => ⟨h _, h _, h _⟩, ?_⟩
    rintro ⟨hstart, hdoubled, hsingle⟩ spot'
    cases spot' <;> assumption
  rw [hall]
  cases spot <;> cases hstart : p start <;> cases hdoubled : p doubled <;>
    cases hsingle : p single <;> simp [all, rank, hstart, hdoubled, hsingle]

end Spot

/-- What follows is, after blanks, an equals sign, a closing bracket or a dot. -/
def Closes (rest : List Char) : Prop :=
  ∃ gap c after, rest = gap ++ c :: after ∧ (∀ d ∈ gap, isBlank d) ∧ (c = '=' ∨ c = ']' ∨ c = '.')

/-- No occurrence of the key begins before the one between these two stretches. -/
def Leftmost (key before rest : List Char) : Prop :=
  ∀ b r, before ++ key ++ rest = b ++ key ++ r → before.length ≤ b.length

/-- A key stands at a spot of a line, between what comes before it and what follows it. In a header
the first occurrence counts. -/
inductive OccursAt (key : List Char) : Spot → List Char → List Char → List Char → Prop where
  | start {blanks rest : List Char} (hblanks : ∀ c ∈ blanks, isBlank c)
      (hsolid : ∀ c ∈ (key ++ rest).head?, ¬ isBlank c) :
      OccursAt key .start (blanks ++ (key ++ rest)) blanks rest
  | header {spot : Spot} {blanks inside rest : List Char} (hspot : spot ≠ .start)
      (hblanks : ∀ c ∈ blanks, isBlank c) (hfirst : Leftmost key inside rest) :
      OccursAt key spot (blanks ++ (spot.opening ++ (inside ++ key ++ rest)))
        (blanks ++ spot.opening ++ inside) rest

/-- The line has the key: it stands at a spot of it and is closed there. -/
def HasKey (key line : List Char) : Prop :=
  ∃ spot before rest, OccursAt key spot line before rest ∧ Closes rest

/-- The line has the key behind the given stretch, at the first spot where it is closed. -/
def KeyAt (key line before : List Char) : Prop :=
  ∃ spot rest, OccursAt key spot line before rest ∧ Closes rest ∧
    ∀ spot', spot'.rank < spot.rank → ∀ b r, OccursAt key spot' line b r → ¬ Closes r

variable {key line before rest : List Char}

theorem takeWhile_append_trimStart (line : List Char) :
    line.takeWhile isBlank ++ trimStart line = line :=
  List.takeWhile_append_dropWhile

theorem isBlank_of_mem_takeWhile (line : List Char) : ∀ c ∈ line.takeWhile isBlank, isBlank c :=
  fun _ hc => List.mem_takeWhile_imp hc

theorem not_isBlank_head_trimStart : ∀ c ∈ (trimStart line).head?, ¬ isBlank c := by
  intro c hc
  have hstop := List.head?_dropWhile_not isBlank line
  rw [trimStart] at hc
  rw [hc] at hstop
  simpa using hstop

theorem closesKey_iff : closesKey rest ↔ Closes rest := by
  constructor
  · intro h
    unfold closesKey trimStart at h
    split at h
    · next c after htrim =>
      refine ⟨rest.takeWhile isBlank, c, after, ?_, isBlank_of_mem_takeWhile rest, ?_⟩
      · rw [← htrim]
        exact (takeWhile_append_trimStart rest).symm
      · simpa [or_assoc] using h
    · cases h
  · rintro ⟨gap, c, after, rfl, hgap, hc⟩
    have hsolid : ∀ d ∈ (c :: after).head?, ¬ isBlank d := by
      intro d hd
      obtain rfl : c = d := Option.some.inj hd
      rcases hc with rfl | rfl | rfl <;> decide
    unfold closesKey trimStart
    rw [dropWhile_append_of_stop hgap hsolid]
    simpa [or_assoc] using hc

theorem leftmost_of_cutFirst? {s : List Char} (h : cutFirst? key s = some (before, rest)) :
    s = before ++ key ++ rest ∧ Leftmost key before rest := by
  have hs := eq_of_cutFirst? h
  refine ⟨hs, fun b r hbr => ?_⟩
  exact length_le_of_cutFirst? h (hs.trans hbr)

theorem cutFirst?_of_leftmost (h : Leftmost key before rest) :
    cutFirst? key (before ++ key ++ rest) = some (before, rest) := by
  obtain ⟨⟨b, r⟩, hcut⟩ := Option.isSome_iff_exists.1 (cutFirst?_isSome before key rest)
  have hs := eq_of_cutFirst? hcut
  have hlength : before.length = b.length :=
    Nat.le_antisymm (h b r hs) (length_le_of_cutFirst? hcut rfl)
  rw [List.append_assoc, List.append_assoc] at hs
  obtain ⟨rfl, hrest⟩ := List.append_inj hs hlength
  obtain rfl := List.append_cancel_left hrest
  exact hcut

/-- What the search takes from a line in a header. -/
def headerCandidate? (key line opening : List Char) : Option (List Char × List Char) := do
  let inside ← afterPrefix? opening (trimStart line)
  let (before, rest) ← cutFirst? key inside
  pure (line.takeWhile isBlank ++ opening ++ before, rest)

/-- What the search takes from a line at a spot. -/
def candidate? (key line : List Char) : Spot → Option (List Char × List Char)
  | .start => (afterPrefix? key (trimStart line)).map (line.takeWhile isBlank, ·)
  | spot => headerCandidate? key line spot.opening

theorem keyCandidates_eq (key line : List Char) :
    keyCandidates key line = Spot.all.filterMap (candidate? key line) := rfl

theorem headerCandidate?_eq_some_iff {spot : Spot} (hspot : spot ≠ .start) :
    headerCandidate? key line spot.opening = some (before, rest) ↔
      OccursAt key spot line before rest := by
  constructor
  · intro h
    obtain ⟨inside, hinside, ⟨b, r⟩, hcut, heq⟩ : ∃ inside,
        afterPrefix? spot.opening (trimStart line) = some inside ∧
          ∃ cut, cutFirst? key inside = some cut ∧
            some (line.takeWhile isBlank ++ spot.opening ++ cut.1, cut.2) = some (before, rest) := by
      simpa only [headerCandidate?, Option.bind_eq_bind, Option.bind_eq_some_iff, pure]
        using h
    cases heq
    obtain ⟨rfl, hfirst⟩ := leftmost_of_cutFirst? hcut
    have hoccurs := OccursAt.header hspot (isBlank_of_mem_takeWhile line) hfirst
    rwa [← eq_append_of_afterPrefix? hinside, takeWhile_append_trimStart] at hoccurs
  · rintro (_ | @⟨_, blanks, inside, _, _, hblanks, hfirst⟩)
    · exact absurd rfl hspot
    · have hsolid : ∀ c ∈ (spot.opening ++ (inside ++ key ++ rest)).head?, ¬ isBlank c := by
        cases spot with
        | start => exact absurd rfl hspot
        | doubled | single =>
          intro c hc
          obtain rfl : '[' = c := Option.some.inj hc
          decide
      rw [headerCandidate?, trimStart, dropWhile_append_of_stop hblanks hsolid,
        takeWhile_append_of_stop hblanks hsolid, afterPrefix?_append]
      simp only [Option.bind_eq_bind, Option.bind_some, cutFirst?_of_leftmost hfirst]
      rfl

theorem candidate?_eq_some_iff {spot : Spot} :
    candidate? key line spot = some (before, rest) ↔ OccursAt key spot line before rest := by
  cases spot with
  | doubled =>
    have hspot : Spot.doubled ≠ .start := by decide
    exact headerCandidate?_eq_some_iff hspot
  | single =>
    have hspot : Spot.single ≠ .start := by decide
    exact headerCandidate?_eq_some_iff hspot
  | start =>
    rw [candidate?]
    constructor
    · intro h
      obtain ⟨r, hafter, heq⟩ := Option.map_eq_some_iff.1 h
      cases heq
      have hbody := eq_append_of_afterPrefix? hafter
      have hsolid : ∀ c ∈ (key ++ rest).head?, ¬ isBlank c := by
        rw [← hbody]
        exact not_isBlank_head_trimStart
      have hoccurs := OccursAt.start (isBlank_of_mem_takeWhile line) hsolid
      rwa [← hbody, takeWhile_append_trimStart] at hoccurs
    · rintro (⟨hblanks, hsolid⟩ | ⟨hspot, -, -⟩)
      · rw [trimStart, dropWhile_append_of_stop hblanks hsolid,
          takeWhile_append_of_stop hblanks hsolid, afterPrefix?_append]
        rfl
      · exact absurd rfl hspot

theorem any_candidate?_iff {spot : Spot} :
    (candidate? key line spot).any (fun cut => closesKey cut.2) ↔
      ∃ b r, OccursAt key spot line b r ∧ Closes r := by
  rw [Option.any_eq_true]
  constructor
  · rintro ⟨⟨b, r⟩, hcut, hcloses⟩
    exact ⟨b, r, candidate?_eq_some_iff.1 hcut, closesKey_iff.1 hcloses⟩
  · rintro ⟨b, r, hoccurs, hcloses⟩
    exact ⟨(b, r), candidate?_eq_some_iff.2 hoccurs, closesKey_iff.2 hcloses⟩

theorem beforeKey?_eq_some_iff : beforeKey? key line = some before ↔ KeyAt key line before := by
  rw [beforeKey?, keyCandidates_eq, List.find?_filterMap, Option.map_eq_some_iff]
  constructor
  · rintro ⟨⟨b, r⟩, hfound, rfl⟩
    obtain ⟨spot, hspot, hcut⟩ := Option.bind_eq_some_iff.1 hfound
    obtain ⟨hany, hearlier⟩ := Spot.find?_eq_some_iff.1 hspot
    rw [hcut] at hany
    refine ⟨spot, r, candidate?_eq_some_iff.1 hcut, closesKey_iff.1 hany, ?_⟩
    intro spot' hrank b' r' hoccurs hcloses
    exact hearlier spot' hrank (any_candidate?_iff.2 ⟨b', r', hoccurs, hcloses⟩)
  · rintro ⟨spot, rest, hoccurs, hcloses, hearlier⟩
    refine ⟨(before, rest), Option.bind_eq_some_iff.2 ⟨spot, ?_, candidate?_eq_some_iff.2 hoccurs⟩, rfl⟩
    refine Spot.find?_eq_some_iff.2 ⟨any_candidate?_iff.2 ⟨before, rest, hoccurs, hcloses⟩, ?_⟩
    intro spot' hrank hany
    obtain ⟨b, r, hoccurs', hcloses'⟩ := any_candidate?_iff.1 hany
    exact hearlier spot' hrank b r hoccurs' hcloses'

theorem beforeKey?_eq_none_iff : beforeKey? key line = none ↔ ¬ HasKey key line := by
  rw [beforeKey?, keyCandidates_eq, Option.map_eq_none_iff, List.find?_eq_none]
  constructor
  · rintro hnone ⟨spot, b, r, hoccurs, hcloses⟩
    have hmem : (b, r) ∈ Spot.all.filterMap (candidate? key line) :=
      List.mem_filterMap.2 ⟨spot, Spot.mem_all spot, candidate?_eq_some_iff.2 hoccurs⟩
    exact hnone _ hmem (closesKey_iff.2 hcloses)
  · intro hnot cut hmem hcloses
    obtain ⟨spot, -, hcut⟩ := List.mem_filterMap.1 hmem
    exact hnot ⟨spot, cut.1, cut.2, candidate?_eq_some_iff.1 hcut, closesKey_iff.1 hcloses⟩

theorem KeyAt.unique {before' : List Char} (h : KeyAt key line before) (h' : KeyAt key line before') :
    before = before' := by
  rw [← beforeKey?_eq_some_iff] at h h'
  exact Option.some.inj (h.symm.trans h')

theorem KeyAt.hasKey (h : KeyAt key line before) : HasKey key line := by
  obtain ⟨spot, rest, hoccurs, hcloses, -⟩ := h
  exact ⟨spot, before, rest, hoccurs, hcloses⟩

theorem HasKey.exists_keyAt (h : HasKey key line) : ∃ before, KeyAt key line before := by
  cases hfound : beforeKey? key line with
  | none => exact absurd h (beforeKey?_eq_none_iff.1 hfound)
  | some before => exact ⟨before, beforeKey?_eq_some_iff.1 hfound⟩

theorem KeyAt.exists_eq (h : KeyAt key line before) : ∃ rest, line = before ++ key ++ rest := by
  obtain ⟨spot, rest, hoccurs, -, -⟩ := h
  cases hoccurs with
  | start _ _ => exact ⟨rest, by simp⟩
  | header _ _ _ => exact ⟨rest, by simp⟩

/-! ## The last line that has a key -/

theorem placeOnLines_eq_none_iff {offset : Nat} {lines : List (List Char)} :
    placeOnLines key offset lines = none ↔ ∀ line ∈ lines, ¬ HasKey key line := by
  induction lines generalizing offset with
  | nil => simp [placeOnLines]
  | cons line lines ih =>
    rw [placeOnLines, List.forall_mem_cons, ← @ih (offset + byteSize line),
      ← beforeKey?_eq_none_iff]
    cases placeOnLines key (offset + byteSize line) lines with
    | none => simp
    | some span => simp

/-- The key is found on a line if no later one has it. -/
theorem placeOnLines_append {offset : Nat} {earlier later : List (List Char)}
    (hkey : KeyAt key line before) (hlast : ∀ l ∈ later, ¬ HasKey key l) :
    placeOnLines key offset (earlier ++ line :: later) =
      some ⟨offset + byteSize earlier.flatten + byteSize before, byteSize key⟩ := by
  induction earlier generalizing offset with
  | nil =>
    rw [List.nil_append, placeOnLines, placeOnLines_eq_none_iff.2 hlast,
      beforeKey?_eq_some_iff.2 hkey]
    simp
  | cons l earlier ih =>
    rw [List.cons_append, placeOnLines, ih]
    simp [Nat.add_assoc]

/-- The last line of a text that has a key, between what stands before it and after it. -/
structure LastWithKey (text key before line after : List Char) : Prop where
  isLine : IsLine text before line after
  hasKey : HasKey key line
  last : ∀ b l a, IsLine after b l a → ¬ HasKey key l

section Text

variable {text after inline : List Char} {span : Span}

theorem LastWithKey.placeOfKey (h : LastWithKey text key before line after)
    (hkey : KeyAt key line inline) :
    placeOfKey text key = some ⟨byteSize (before ++ inline), byteSize key⟩ := by
  have hlater : ∀ l ∈ fullLines after, ¬ HasKey key l := by
    intro l hl
    obtain ⟨b, a, hline⟩ := mem_fullLines_iff.1 hl
    exact h.last b l a hline
  rw [Manifest.placeOfKey, h.isLine.fullLines_eq, placeOnLines_append hkey hlater, flatten_fullLines,
    byteSize_append, Nat.zero_add]

theorem exists_lastWithKey {b l a : List Char} (hline : IsLine text b l a) (hkey : HasKey key l) :
    ∃ before line after, LastWithKey text key before line after := by
  have hlines : ∀ lines : List (List Char), (∃ line ∈ lines, HasKey key line) →
      ∃ earlier line later, lines = earlier ++ line :: later ∧ HasKey key line ∧
        ∀ l ∈ later, ¬ HasKey key l := by
    intro lines
    induction lines with
    | nil => simp
    | cons line lines ih =>
      intro hsome
      by_cases hrest : ∃ line ∈ lines, HasKey key line
      · obtain ⟨earlier, l, later, rfl, hl, hlast⟩ := ih hrest
        exact ⟨line :: earlier, l, later, rfl, hl, hlast⟩
      · have hhere : HasKey key line := ((List.exists_mem_cons_iff _ _ _).1 hsome).resolve_right hrest
        exact ⟨[], line, lines, rfl, hhere, fun l hl hk => hrest ⟨l, hl, hk⟩⟩
  obtain ⟨earlier, line, later, heq, hhas, hlast⟩ :=
    hlines (fullLines text) ⟨l, mem_fullLines_iff.2 ⟨b, a, hline⟩, hkey⟩
  refine ⟨_, line, _, isLine_of_fullLines heq, hhas, ?_⟩
  intro b l a hl
  have hmem := mem_fullLines_iff.2 ⟨b, a, hl⟩
  rw [(line_of_fullLines heq).2.2.2] at hmem
  exact hlast l hmem

theorem placeOfKey_eq_none_iff :
    placeOfKey text key = none ↔ ∀ b l a, IsLine text b l a → ¬ HasKey key l := by
  rw [placeOfKey, placeOnLines_eq_none_iff]
  constructor
  · intro h b l a hline
    exact h l (mem_fullLines_iff.2 ⟨b, a, hline⟩)
  · intro h l hl
    obtain ⟨b, a, hline⟩ := mem_fullLines_iff.1 hl
    exact h b l a hline

theorem placeOfKey_eq_some_iff :
    placeOfKey text key = some span ↔ ∃ before line after inline,
      LastWithKey text key before line after ∧ KeyAt key line inline ∧
        span = ⟨byteSize (before ++ inline), byteSize key⟩ := by
  constructor
  · intro h
    have hsome : ¬ ∀ b l a, IsLine text b l a → ¬ HasKey key l := by
      rw [← placeOfKey_eq_none_iff, h]
      simp
    simp only [not_forall, not_not] at hsome
    obtain ⟨b, l, a, hline, hkey⟩ := hsome
    obtain ⟨before, line, after, hlast⟩ := exists_lastWithKey hline hkey
    obtain ⟨inline, hinline⟩ := hlast.hasKey.exists_keyAt
    rw [hlast.placeOfKey hinline] at h
    exact ⟨before, line, after, inline, hlast, hinline, (Option.some.inj h).symm⟩
  · rintro ⟨before, line, after, inline, hlast, hinline, rfl⟩
    exact hlast.placeOfKey hinline

theorem covers_of_placeOfKey (h : placeOfKey text key = some span) : span.Covers text key := by
  obtain ⟨before, line, after, inline, hlast, hinline, rfl⟩ := placeOfKey_eq_some_iff.1 h
  obtain ⟨rest, rfl⟩ := hinline.exists_eq
  exact ⟨before ++ inline, rest ++ after, by simp [hlast.isLine.eq], rfl, rfl⟩

/-! ## Names in quotes -/

/-- A name in double quotes. -/
def inQuotes (name : List Char) : List Char := quoteMark :: name ++ [quoteMark]

/-- What stands before the last occurrence of a name in quotes. -/
structure LastQuoted (text name before : List Char) : Prop where
  occurs : ∃ rest, text = before ++ inQuotes name ++ rest
  last : ∀ b r, text = b ++ inQuotes name ++ r → b.length ≤ before.length

variable {name : List Char}

theorem LastQuoted.placeOfName (h : LastQuoted text name before) :
    placeOfName text name = some ⟨byteSize before + 1, byteSize name⟩ := by
  obtain ⟨rest, htext⟩ := h.occurs
  have hsome := cutLast?_isSome before (inQuotes name) rest
  rw [← htext] at hsome
  obtain ⟨⟨b, r⟩, hcut⟩ := Option.isSome_iff_exists.1 hsome
  have hlength : b.length = before.length :=
    Nat.le_antisymm (h.last b r (eq_of_cutLast? hcut)) (length_le_of_cutLast? hcut htext)
  have hbefore : b = before := by
    have hs := (eq_of_cutLast? hcut).symm.trans htext
    rw [List.append_assoc, List.append_assoc] at hs
    exact (List.append_inj hs hlength).1
  rw [inQuotes] at hcut
  rw [Manifest.placeOfName, hcut, hbefore]
  rfl

theorem lastQuoted_of_cutLast? {rest : List Char}
    (h : cutLast? (inQuotes name) text = some (before, rest)) : LastQuoted text name before :=
  ⟨⟨rest, eq_of_cutLast? h⟩, fun _ _ hs => length_le_of_cutLast? h hs⟩

theorem exists_lastQuoted {b r : List Char} (h : text = b ++ inQuotes name ++ r) :
    ∃ before, LastQuoted text name before := by
  have hsome := cutLast?_isSome b (inQuotes name) r
  rw [← h] at hsome
  obtain ⟨⟨before, rest⟩, hcut⟩ := Option.isSome_iff_exists.1 hsome
  exact ⟨before, lastQuoted_of_cutLast? hcut⟩

theorem placeOfName_of_not_quoted (h : ∀ b r, text ≠ b ++ inQuotes name ++ r) :
    placeOfName text name = placeOfKey text name := by
  rw [placeOfName]
  split
  · next b r hcut => exact absurd (eq_of_cutLast? hcut) (h b r)
  · rfl

theorem covers_of_placeOfName (h : placeOfName text name = some span) : span.Covers text name := by
  by_cases hquoted : ∃ b r, text = b ++ inQuotes name ++ r
  · obtain ⟨b, r, htext⟩ := hquoted
    obtain ⟨before, hlast⟩ := exists_lastQuoted htext
    rw [hlast.placeOfName] at h
    obtain rfl := Option.some.inj h
    obtain ⟨rest, rfl⟩ := hlast.occurs
    refine ⟨before ++ [quoteMark], quoteMark :: rest, by simp [inQuotes], ?_, rfl⟩
    rw [byteSize_append]
    rfl
  · simp only [not_exists] at hquoted
    rw [placeOfName_of_not_quoted hquoted] at h
    exact covers_of_placeOfKey h

end Text

/-! ## The search by positions in bytes -/

/-- What the search takes from a line in a header: the position of the key, and what follows. It fails
if the line cannot be cut where the key ends. -/
def headerByBytes (key body opening : List Char) (indent : Nat) : Option (Option (Nat × List Char)) :=
  match afterPrefix? opening body with
  | none => some none
  | some inside =>
    match (cutFirst? key inside).map fun cut => byteSize cut.1 with
    | none => some none
    | some position => (fromByte? inside (position + byteSize key)).map fun rest =>
        some (indent + byteSize opening + position, rest)

/-- The ways in which a key stands on a line, each by its position. Blanks in front are as long as
the line without them is shorter than the line. -/
def candidatesByBytes (key line : List Char) : Option (List (Nat × List Char)) := do
  let body := trimStart line
  let indent := byteSize line - byteSize body
  let doubled ← headerByBytes key body Spot.doubled.opening indent
  let single ← headerByBytes key body Spot.single.opening indent
  pure ([(afterPrefix? key body).map (indent, ·), doubled, single].filterMap id)

/-- The search from line to line, with the byte at which the line begins and what has been found
before. It fails if a line cannot be cut where it has to be. -/
def searchByBytes (key : List Char) : Nat → Option Span → List (List Char) → Option (Option Span)
  | _, found, [] => some found
  | offset, found, line :: rest => do
    let candidates ← candidatesByBytes key line
    let here := (candidates.find? fun cut => closesKey cut.2).map fun cut =>
      (⟨offset + cut.1, byteSize key⟩ : Span)
    searchByBytes key (offset + byteSize line) (here.or found) rest

/-- The place of a key in a text, found by positions. -/
def keyByBytes (text key : List Char) : Option (Option Span) :=
  searchByBytes key 0 none (fullLines text)

theorem headerByBytes_eq {opening : List Char} :
    headerByBytes key (trimStart line) opening (byteSize (line.takeWhile isBlank)) =
      some ((headerCandidate? key line opening).map fun cut => (byteSize cut.1, cut.2)) := by
  rw [headerByBytes, headerCandidate?]
  cases hafter : afterPrefix? opening (trimStart line) with
  | none => rfl
  | some inside =>
    cases hcut : cutFirst? key inside with
    | none => simp [hcut]
    | some cut =>
      -- The key ends where what stands before it and the key itself are cut off.
      have hposition : fromByte? inside (byteSize cut.1 + byteSize key) = some cut.2 := by
        rw [eq_of_cutFirst? hcut, ← byteSize_append, fromByte?_append]
      simp [hcut, hposition, Nat.add_assoc]

theorem candidatesByBytes_eq (key line : List Char) :
    candidatesByBytes key line =
      some ((keyCandidates key line).map fun cut => (byteSize cut.1, cut.2)) := by
  have hindent : byteSize line - byteSize (trimStart line) = byteSize (line.takeWhile isBlank) := by
    have hline := congrArg byteSize (takeWhile_append_trimStart line)
    rw [byteSize_append] at hline
    omega
  have hstart : (afterPrefix? key (trimStart line)).map (byteSize (line.takeWhile isBlank), ·) =
      (candidate? key line .start).map fun cut => (byteSize cut.1, cut.2) := by
    rw [candidate?, Option.map_map]
    rfl
  rw [candidatesByBytes]
  simp only [hindent, headerByBytes_eq, hstart]
  rw [keyCandidates_eq, List.map_filterMap]
  rfl

theorem searchByBytes_eq (key : List Char) (offset : Nat) (found : Option Span)
    (lines : List (List Char)) :
    searchByBytes key offset found lines = some ((placeOnLines key offset lines).or found) := by
  induction lines generalizing offset found with
  | nil => rfl
  | cons line lines ih =>
    have hhere : ((((keyCandidates key line).map fun cut => (byteSize cut.1, cut.2)).find?
        fun cut => closesKey cut.2).map fun cut => (⟨offset + cut.1, byteSize key⟩ : Span)) =
        (beforeKey? key line).map fun before => ⟨offset + byteSize before, byteSize key⟩ := by
      rw [List.find?_map, beforeKey?, Option.map_map, Option.map_map]
      rfl
    rw [searchByBytes, candidatesByBytes_eq]
    simp only [Option.bind_eq_bind, Option.bind_some]
    rw [hhere, ih, placeOnLines, ← Option.or_assoc]
    cases placeOnLines key (offset + byteSize line) lines <;> simp

theorem keyByBytes_eq (text key : List Char) :
    keyByBytes text key = some (placeOfKey text key) := by
  rw [keyByBytes, searchByBytes_eq, placeOfKey, Option.or_none]

/-! ## The account of both searches -/

/-- Going by positions, the search for a key never cuts the text where it cannot be cut. What it finds,
and what the search for a name finds, can be cut out of the text and has the bytes of the key or name.
A key is found on the last line that has it, and not found only if no line has it. A name is found in
quotes where it stands there last, and as a key if it nowhere stands in quotes. -/
theorem place_account (text key : String) :
    keyByBytes text.toList key.toList = some (placeOfKey text.toList key.toList) ∧
    (∀ span, placeOfKey text.toList key.toList = some span → span.CutsOut text key) ∧
    (∀ span, placeOfKey text.toList key.toList = some span ↔ ∃ before line after inline,
      LastWithKey text.toList key.toList before line after ∧ KeyAt key.toList line inline ∧
        span = ⟨byteSize (before ++ inline), byteSize key.toList⟩) ∧
    (placeOfKey text.toList key.toList = none ↔
      ∀ before line after, IsLine text.toList before line after → ¬ HasKey key.toList line) ∧
    (∀ span, placeOfName text.toList key.toList = some span → span.CutsOut text key) ∧
    ((∃ before, LastQuoted text.toList key.toList before ∧
        placeOfName text.toList key.toList = some ⟨byteSize before + 1, byteSize key.toList⟩) ∨
      (∀ before rest, text.toList ≠ before ++ inQuotes key.toList ++ rest) ∧
        placeOfName text.toList key.toList = placeOfKey text.toList key.toList) := by
  refine ⟨keyByBytes_eq _ _, fun span h => (covers_of_placeOfKey h).cutsOut,
    fun span => placeOfKey_eq_some_iff, placeOfKey_eq_none_iff,
    fun span h => (covers_of_placeOfName h).cutsOut, ?_⟩
  by_cases hquoted : ∃ before rest, text.toList = before ++ inQuotes key.toList ++ rest
  · obtain ⟨b, r, htext⟩ := hquoted
    obtain ⟨before, hlast⟩ := exists_lastQuoted htext
    exact Or.inl ⟨before, hlast, hlast.placeOfName⟩
  · simp only [not_exists] at hquoted
    exact Or.inr ⟨hquoted, placeOfName_of_not_quoted hquoted⟩

/-- A text with a header behind a wide blank, a long character in it, and a line end of two. -/
def wideHeader : String := "a = 'é'\r\n\u3000[[é.key ]]\r\nkeys = 1\r\n"

theorem place_account_wideHeader :
    placeOfKey wideHeader.toList ['k', 'e', 'y'] = some ⟨18, 3⟩ ∧
      Span.CutsOut ⟨18, 3⟩ wideHeader "key" := by
  have hfound : placeOfKey wideHeader.toList ['k', 'e', 'y'] = some ⟨18, 3⟩ := by decide
  exact ⟨hfound, (place_account wideHeader "key").2.1 _ hfound⟩

end WorkerEnv.Manifest
