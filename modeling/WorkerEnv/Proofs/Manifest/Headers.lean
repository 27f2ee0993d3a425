/-
# WorkerEnv.Proofs.Manifest.Headers -- the headers that a binding without a name is blamed on

A binding without a name is marked on the last line that has the innermost key of its kind. Kinds can
share that key, and the scope in front of a place can mention it. So a header has the key if the
first occurrence in its scope is closed there, and, where the scope does not hold the key, if the place
behind it ends in the same key. Nothing else about the kind of the header counts.
-/

import WorkerEnv.Proofs.Manifest.Position
import WorkerEnv.Proofs.Manifest.Validation

namespace WorkerEnv.Manifest

open Text

/-! ## Lines that are marked -/

/-- A span lies on a line of a text. -/
structure LiesOn (span : Span) (text before line after : List Char) : Prop where
  isLine : IsLine text before line after
  starts : byteSize before ≤ span.offset
  ends : span.offset + span.size ≤ byteSize (before ++ line)

variable {text key before line after : List Char}

/-- A span that is not empty lies on one line. -/
theorem LiesOn.unique {span : Span} {before' line' after' : List Char}
    (h : LiesOn span text before line after) (h' : LiesOn span text before' line' after')
    (hsize : 0 < span.size) : before = before' ∧ line = line' ∧ after = after' := by
  have hapart : ∀ {b l a b' l' a' between : List Char}, LiesOn span text b l a →
      LiesOn span text b' l' a' → b' ≠ b ++ l ++ between := by
    rintro b l a b' l' a' between h h' rfl
    have hends := h.ends
    have hstarts := h'.starts
    rw [byteSize_append] at hstarts
    omega
  rcases h.isLine.compare h'.isLine with hsame | ⟨between, hbefore, -⟩ | ⟨between, hbefore, -⟩
  · exact hsame
  · exact absurd hbefore (hapart h h')
  · exact absurd hbefore (hapart h' h)

theorem LastWithKey.liesOn {inline : List Char} (h : LastWithKey text key before line after)
    (hkey : KeyAt key line inline) :
    LiesOn ⟨byteSize (before ++ inline), byteSize key⟩ text before line after := by
  obtain ⟨rest, hline⟩ := hkey.exists_eq
  refine ⟨h.isLine, ?_, ?_⟩
  · simp
  · simp [hline, Nat.add_assoc]

/-- The place of a key lies on the last line that has it. -/
theorem liesOn_placeOfKey_iff (hkey : key ≠ []) :
    (∃ span, placeOfKey text key = some span ∧ LiesOn span text before line after) ↔
      LastWithKey text key before line after := by
  constructor
  · rintro ⟨span, hplace, hlies⟩
    obtain ⟨b, l, a, inline, hlast, hinline, rfl⟩ := placeOfKey_eq_some_iff.1 hplace
    obtain ⟨rfl, rfl, rfl⟩ := (hlast.liesOn hinline).unique hlies (byteSize_pos hkey)
    exact hlast
  · intro h
    obtain ⟨inline, hinline⟩ := h.hasKey.exists_keyAt
    exact ⟨_, h.placeOfKey hinline, h.liesOn hinline⟩

/-! ## The first occurrence of a key -/

/-- The first occurrence of a key in a text is closed by what follows it. -/
def FirstCloses (key s : List Char) : Prop :=
  ∃ u v, s = u ++ key ++ v ∧ Leftmost key u v ∧ Closes v

/-- A key of one word, without anything that belongs to a header. -/
structure Solid (key : List Char) : Prop where
  ne_nil : key ≠ []
  bare : ∀ c ∈ key, c ≠ '[' ∧ c ≠ ']' ∧ c ≠ '.' ∧ ¬ isBlank c

variable {s t u v : List Char} {d : Char}

theorem firstCloses_iff : FirstCloses key s ↔ (cutFirst? key s).any fun cut => closesKey cut.2 := by
  rw [Option.any_eq_true]
  constructor
  · rintro ⟨u, v, rfl, hfirst, hcloses⟩
    exact ⟨(u, v), cutFirst?_of_leftmost hfirst, closesKey_iff.2 hcloses⟩
  · rintro ⟨⟨u, v⟩, hcut, hcloses⟩
    obtain ⟨hs, hfirst⟩ := leftmost_of_cutFirst? hcut
    exact ⟨u, v, hs, hfirst, closesKey_iff.1 hcloses⟩

/-- What follows a character that is not blank has no say in whether a key is closed. -/
theorem closesKey_append_cons (hd : ¬ isBlank d) (t : List Char) :
    closesKey (v ++ d :: t) = closesKey (v ++ [d]) := by
  induction v with
  | nil => simp [closesKey, trimStart, hd]
  | cons c v ih =>
    by_cases hc : isBlank c
    · simpa [closesKey, trimStart, hc] using ih
    · simp [closesKey, trimStart, hc]

/-- An occurrence in the front of a text is first in the whole. -/
theorem cutFirst?_append (h : cutFirst? key s = some (u, v)) (t : List Char) :
    cutFirst? key (s ++ t) = some (u, v ++ t) := by
  obtain ⟨rfl, hfirst⟩ := leftmost_of_cutFirst? h
  have hwhole : Leftmost key u (v ++ t) := by
    intro b r hbr
    by_contra hlt
    have hprefix : b ++ key <+: u ++ key ++ v := by
      refine List.prefix_of_prefix_length_le ⟨r, hbr.symm⟩ ⟨t, by simp⟩ ?_
      simp only [List.length_append]
      omega
    obtain ⟨r', hr'⟩ := hprefix
    exact hlt (hfirst b r' hr'.symm)
  rw [List.append_assoc _ v t]
  exact cutFirst?_of_leftmost hwhole

/-- A key that begins in front of a character that it does not hold ends there. -/
theorem prefix_of_append_cons {r : List Char} (hd : d ∉ key) (h : s ++ d :: t = key ++ r) :
    key <+: s := by
  rcases List.append_eq_append_iff.1 h with ⟨w, hkey, hrest⟩ | ⟨w, hs, -⟩
  · cases w with
    | nil => exact ⟨[], by simp [hkey]⟩
    | cons c w =>
      obtain rfl : d = c := (List.cons.inj hrest).1
      exact absurd (by simp [hkey]) hd
  · exact ⟨w, hs.symm⟩

theorem afterPrefix?_append_cons (hd : d ∉ key) (h : ¬ key <+: s) (t : List Char) :
    afterPrefix? key (s ++ d :: t) = none := by
  cases hafter : afterPrefix? key (s ++ d :: t) with
  | none => rfl
  | some r => exact absurd (prefix_of_append_cons hd (eq_append_of_afterPrefix? hafter)) h

/-- Where the front of a text does not hold a key, it is looked for behind. -/
theorem cutFirst?_append_cons (hd : d ∉ key) (h : ¬ key <:+: s) (t : List Char) :
    cutFirst? key (s ++ d :: t) = (cutFirst? key t).map fun cut => (s ++ d :: cut.1, cut.2) := by
  have hnone := afterPrefix?_append_cons hd (fun hprefix => h hprefix.isInfix) t
  induction s with
  | nil =>
    rw [List.nil_append] at hnone
    rw [List.nil_append, cutFirst?, hnone]
    rfl
  | cons c s ih =>
    have hrest : ¬ key <:+: s := fun hs => h (List.infix_cons hs)
    rw [List.cons_append] at hnone
    rw [List.cons_append, cutFirst?, hnone,
      ih hrest (afterPrefix?_append_cons hd (fun hprefix => hrest hprefix.isInfix) t), Option.map_map]
    rfl

/-- The first occurrence of a key around a character that it does not hold: in front, if there is one,
where that character may close it, and else behind. -/
theorem firstCloses_append_cons (hkey : key ≠ []) (hd : d ∉ key) (hsolid : ¬ isBlank d) :
    FirstCloses key (s ++ d :: t) ↔
      FirstCloses key (s ++ [d]) ∨ ¬ key <:+: s ∧ FirstCloses key t := by
  by_cases hs : key <:+: s
  · obtain ⟨⟨u, v⟩, hcut⟩ := Option.isSome_iff_exists.1 (occursIn_iff.2 hs)
    rw [firstCloses_iff, firstCloses_iff, cutFirst?_append hcut, cutFirst?_append hcut]
    simp [closesKey_append_cons hsolid t, hs]
  · have hnil : cutFirst? key [] = none := by
      cases key with
      | nil => exact absurd rfl hkey
      | cons c key => rfl
    rw [firstCloses_iff, firstCloses_iff, firstCloses_iff, cutFirst?_append_cons hd hs,
      cutFirst?_append_cons hd hs, hnil]
    simp [hs, Option.any_map]

/-- A key does not stand among characters that it does not hold. -/
theorem not_firstCloses_of_foreign (hkey : key ≠ []) (h : ∀ c ∈ s, c ∉ key) : ¬ FirstCloses key s := by
  rintro ⟨u, v, rfl, -, -⟩
  obtain ⟨c, hc⟩ := List.exists_mem_of_ne_nil key hkey
  exact h c (by simp [hc]) hc

theorem infix_concat_iff (hkey : key ≠ []) (hd : d ∉ key) : key <:+: s ++ [d] ↔ key <:+: s := by
  constructor
  · intro h
    by_contra hs
    have hcut := cutFirst?_append_cons hd hs []
    rw [← occursIn_iff, occursIn, hcut, Option.isSome_map] at h
    exact hkey (List.infix_nil.1 (occursIn_iff.1 h))
  · rintro ⟨u, v, rfl⟩
    exact ⟨u, v ++ [d], by simp⟩

theorem firstCloses_cons (hkey : key ≠ []) (hd : d ∉ key) (hsolid : ¬ isBlank d) :
    FirstCloses key (d :: t) ↔ FirstCloses key t := by
  have hsplit := firstCloses_append_cons (s := []) (t := t) hkey hd hsolid
  have hfront : ¬ FirstCloses key [d] := not_firstCloses_of_foreign hkey (by simpa using hd)
  have hnil : ¬ key <:+: [] := mt List.infix_nil.1 hkey
  simpa [hfront, hnil] using hsplit

/-! ## Headers of tables of bindings -/

/-- What stands behind the place in a header. -/
def Spot.closing : Spot → List Char
  | .start => []
  | .doubled => [']', ']']
  | .single => [']']

/-- What stands before the place in a header: nothing at the top level, or an environment. -/
def IsScope (scope : List Char) : Prop :=
  scope = [] ∨ ∃ name, scope = "env.".toList ++ name ++ ['.']

/-- A line is the header of a table of bindings, or of an element of an array of them. -/
def IsHeader (kind : Kind) (scope line : List Char) : Prop :=
  ∃ spot : Spot, spot ≠ .start ∧
    trimEnd (trimStart line) = spot.opening ++ (scope ++ kind.place.toList ++ spot.closing)

theorem solid_innermostKey (kind : Kind) : Solid kind.innermostKey.toList := by
  have hall : kind.innermostKey.toList.all
      fun c => c != '[' && c != ']' && c != '.' && !isBlank c := by
    cases kind <;> decide
  refine ⟨by cases kind <;> decide, ?_⟩
  intro c hc
  simpa [and_assoc] using List.all_eq_true.1 hall c hc

/-- The innermost keys of two kinds are equal if the one ends the place of the other. -/
theorem firstCloses_place_iff (kind other : Kind) :
    FirstCloses kind.innermostKey.toList (other.place.toList ++ [']']) ↔
      other.innermostKey = kind.innermostKey := by
  have hall : ∀ kind ∈ Kind.all, ∀ other ∈ Kind.all,
      ((cutFirst? kind.innermostKey.toList (other.place.toList ++ [']'])).any
        fun cut => closesKey cut.2) = decide (other.innermostKey = kind.innermostKey) := by
    decide +kernel
  rw [firstCloses_iff, hall kind (Kind.mem_all kind) other (Kind.mem_all other), decide_eq_true_iff]

theorem exists_trimEnd (s : List Char) : ∃ back, s = trimEnd s ++ back ∧ ∀ c ∈ back, isBlank c := by
  refine ⟨(s.reverse.takeWhile isBlank).reverse, ?_, ?_⟩
  · rw [trimEnd, ← List.reverse_append, List.takeWhile_append_dropWhile, List.reverse_reverse]
  · intro c hc
    exact List.mem_takeWhile_imp (List.mem_reverse.1 hc)

/-- A line that begins with a bracket has a key if the first occurrence behind the bracket is closed.
A second bracket makes no difference. -/
theorem hasKey_bracket_iff (hkey : Solid key) {blanks body : List Char}
    (hblanks : ∀ c ∈ blanks, isBlank c) :
    HasKey key (blanks ++ '[' :: body) ↔ FirstCloses key body := by
  have hbracket : '[' ∉ key := fun h => (hkey.bare _ h).1 rfl
  have hsolid : ¬ isBlank '[' := by decide
  have htrim : ∀ (b : List Char) {s : List Char}, (∀ c ∈ b, isBlank c) →
      (∀ c ∈ s.head?, ¬ isBlank c) → trimStart (b ++ s) = s := fun b _ => dropWhile_append_of_stop
  constructor
  · rintro ⟨spot, before, rest, hoccurs, hcloses⟩
    have hbody : trimStart (blanks ++ '[' :: body) = '[' :: body :=
      htrim blanks hblanks (by simpa using hsolid)
    generalize blanks ++ '[' :: body = line at hoccurs hbody
    cases hoccurs with
    | start hblanks' hsolid' =>
      rw [htrim _ hblanks' hsolid'] at hbody
      have hprefix : key <+: [] := prefix_of_append_cons hbracket hbody.symm
      exact absurd (List.prefix_nil.1 hprefix) hkey.ne_nil
    | @header _ blanks' inside _ hspot hblanks' hfirst =>
      cases spot with
      | start => exact absurd rfl hspot
      | doubled =>
        rw [htrim _ hblanks' (by simpa [Spot.opening] using hsolid)] at hbody
        obtain rfl := (List.cons.inj hbody).2
        exact (firstCloses_cons hkey.ne_nil hbracket hsolid).2 ⟨inside, rest, rfl, hfirst, hcloses⟩
      | single =>
        rw [htrim _ hblanks' (by simpa [Spot.opening] using hsolid)] at hbody
        obtain rfl := (List.cons.inj hbody).2
        exact ⟨inside, rest, rfl, hfirst, hcloses⟩
  · rintro ⟨u, v, rfl, hfirst, hcloses⟩
    have hspot : Spot.single ≠ .start := by decide
    exact ⟨.single, _, v, .header hspot hblanks hfirst, hcloses⟩

/-- Behind a scope a key is first found in the scope if it stands there. -/
theorem firstCloses_scope_iff (hkey : Solid key) {scope : List Char} (hscope : IsScope scope) :
    FirstCloses key (scope ++ t) ↔ FirstCloses key scope ∨ ¬ key <:+: scope ∧ FirstCloses key t := by
  have hdot : '.' ∉ key := fun h => (hkey.bare _ h).2.2.1 rfl
  have hsolid : ¬ isBlank '.' := by decide
  rcases hscope with rfl | ⟨name, rfl⟩
  · have hnone : ¬ FirstCloses key [] := not_firstCloses_of_foreign hkey.ne_nil (by simp)
    have hnil : ¬ key <:+: [] := mt List.infix_nil.1 hkey.ne_nil
    simp [hnone, hnil]
  · rw [infix_concat_iff hkey.ne_nil hdot, List.append_assoc _ ['.'] t, List.singleton_append]
    exact firstCloses_append_cons hkey.ne_nil hdot hsolid

/-- Which keys are found behind the brackets of a header. -/
theorem firstCloses_header_iff {kind other : Kind} {scope tail : List Char} (hscope : IsScope scope)
    (htail : ∀ c ∈ tail, c = ']' ∨ isBlank c) :
    FirstCloses kind.innermostKey.toList (scope ++ (other.place.toList ++ ']' :: tail)) ↔
      FirstCloses kind.innermostKey.toList scope ∨
        ¬ kind.innermostKey.toList <:+: scope ∧ other.innermostKey = kind.innermostKey := by
  have hkey := solid_innermostKey kind
  have hbracket : ']' ∉ kind.innermostKey.toList := fun h => (hkey.bare _ h).2.1 rfl
  have hsolid : ¬ isBlank ']' := by decide
  have hnone : ¬ FirstCloses kind.innermostKey.toList tail := by
    refine not_firstCloses_of_foreign hkey.ne_nil ?_
    intro c hc hmem
    rcases htail c hc with rfl | hblank
    · exact hbracket hmem
    · exact (hkey.bare c hmem).2.2.2 hblank
  rw [firstCloses_scope_iff hkey hscope, firstCloses_append_cons hkey.ne_nil hbracket hsolid,
    firstCloses_place_iff]
  simp [hnone]

/-- A header has the innermost key of a kind if its scope does, or if its scope does not hold the key
and its place ends in it. -/
theorem hasKey_header_iff {kind other : Kind} {scope : List Char} (hscope : IsScope scope)
    (hheader : IsHeader other scope line) :
    HasKey kind.innermostKey.toList line ↔ FirstCloses kind.innermostKey.toList scope ∨
      ¬ kind.innermostKey.toList <:+: scope ∧ other.innermostKey = kind.innermostKey := by
  have hkey := solid_innermostKey kind
  have hbracket : '[' ∉ kind.innermostKey.toList := fun h => (hkey.bare _ h).1 rfl
  have hsolid : ¬ isBlank '[' := by decide
  obtain ⟨spot, hspot, htrim⟩ := hheader
  obtain ⟨back, hback, hblank⟩ := exists_trimEnd (trimStart line)
  rw [htrim] at hback
  rw [← takeWhile_append_trimStart line, hback]
  cases spot with
  | start => exact absurd rfl hspot
  | doubled =>
    have hbody :
        Spot.doubled.opening ++ (scope ++ other.place.toList ++ Spot.doubled.closing) ++ back =
          '[' :: '[' :: (scope ++ (other.place.toList ++ ']' :: (']' :: back))) := by
      simp [Spot.opening, Spot.closing]
    have htail : ∀ c ∈ ']' :: back, c = ']' ∨ isBlank c :=
      List.forall_mem_cons.2 ⟨.inl rfl, fun c hc => .inr (hblank c hc)⟩
    rw [hbody, hasKey_bracket_iff hkey (isBlank_of_mem_takeWhile line),
      firstCloses_cons hkey.ne_nil hbracket hsolid, firstCloses_header_iff hscope htail]
  | single =>
    have hbody :
        Spot.single.opening ++ (scope ++ other.place.toList ++ Spot.single.closing) ++ back =
          '[' :: (scope ++ (other.place.toList ++ ']' :: back)) := by
      simp [Spot.opening, Spot.closing]
    have htail : ∀ c ∈ back, c = ']' ∨ isBlank c := fun c hc => .inr (hblank c hc)
    rw [hbody, hasKey_bracket_iff hkey (isBlank_of_mem_takeWhile line),
      firstCloses_header_iff hscope htail]

/-- The environment is called like the key of services. -/
example : beforeKey? "services".toList "[env.services.vars]\n".toList = some "[env.".toList := by
  decide

/-! ## The label -/

/-- A label of a problem lies on a line. -/
def Problem.Marks (problem : Problem) (text before line after : List Char) : Prop :=
  ∃ label ∈ problem.labels, LiesOn label.2 text before line after

theorem place_of_unnamed {text file file' : String} {kind : Kind} {place : Option Span}
    (h : parse text file = .error (.unnamed file' kind place)) :
    place = placeOfKey text.toList kind.innermostKey.toList := by
  rcases problem_of_parse h with hproblem | ⟨offence, hproblem⟩
  · cases hproblem
  · cases offence with
    | unnamed _ =>
      cases hproblem
      rfl
    | duplicate _ _ _ => cases hproblem

/-- A binding without a name is marked on the last line that has the innermost key of its kind, and on
no other. So a header of a table of bindings, of whatever kind, is marked exactly if the first
occurrence of the key in its scope is closed, or the key does not stand in the scope and is the
innermost one of the header's kind too, and if no line after the header has the key. -/
theorem unnamed_account {text file file' : String} {kind : Kind} {place : Option Span}
    (h : parse text file = .error (.unnamed file' kind place)) :
    let problem := Problem.unnamed file' kind place
    let key := kind.innermostKey.toList
    (∀ before line after, problem.Marks text.toList before line after ↔
      LastWithKey text.toList key before line after) ∧
    (∀ before line after scope other, IsScope scope → IsHeader other scope line →
      (problem.Marks text.toList before line after ↔ IsLine text.toList before line after ∧
        (FirstCloses key scope ∨ ¬ key <:+: scope ∧ other.innermostKey = kind.innermostKey) ∧
        ∀ b l a, IsLine after b l a → ¬ HasKey key l)) := by
  intro problem key
  have hmarks : ∀ before line after, problem.Marks text.toList before line after ↔
      LastWithKey text.toList key before line after := by
    intro before line after
    rw [← liesOn_placeOfKey_iff (solid_innermostKey kind).ne_nil, ← place_of_unnamed h]
    simp [Problem.Marks, problem, Problem.labels]
  refine ⟨hmarks, ?_⟩
  intro before line after scope other hscope hheader
  rw [hmarks, ← hasKey_header_iff hscope hheader]
  constructor
  · intro hlast
    exact ⟨hlast.isLine, hlast.hasKey, hlast.last⟩
  · rintro ⟨hline, hkey, hlater⟩
    exact ⟨hline, hkey, hlater⟩

/-! ## Kinds that share their innermost key -/

/-- A binding without a name is not marked on the header of another kind. -/
def SparesOthers (text file : String) : Prop :=
  ∀ file' kind place, parse text file = .error (.unnamed file' kind place) →
    ∀ before line after scope other,
      (Problem.unnamed file' kind place).Marks text.toList before line after →
      IsScope scope → IsHeader other scope line → other = kind

/-- A durable object without a name, and a binding of another kind with one. -/
def sharedKey : String :=
  "[[durable_objects.bindings]]\nclass_name = \"C\"\n[[unsafe.bindings]]\nname = \"R\"\n"

/-- The header of the other kind. -/
def otherHeader : List Char := "[[unsafe.bindings]]\n".toList

theorem parse_sharedKey : parse sharedKey "wrangler.toml" =
    .error (.unnamed "wrangler.toml" .durableObject (some ⟨55, 8⟩)) := by
  have hproblem : problem? sharedKey "wrangler.toml" =
      some (.unnamed "wrangler.toml" .durableObject (some ⟨55, 8⟩)) := by
    decide +kernel
  exact problem?_eq_some_iff.1 hproblem

theorem marks_sharedKey : (Problem.unnamed "wrangler.toml" .durableObject (some ⟨55, 8⟩)).Marks
    sharedKey.toList (sharedKey.toList.take 46) otherHeader (sharedKey.toList.drop 66) := by
  have hlines : fullLines sharedKey.toList =
      fullLines (sharedKey.toList.take 46) ++ otherHeader :: fullLines (sharedKey.toList.drop 66) := by
    decide +kernel
  have hline := isLine_of_fullLines hlines
  rw [flatten_fullLines, flatten_fullLines] at hline
  refine ⟨_, List.mem_singleton_self _, hline, ?_, ?_⟩ <;> decide

theorem unnamed_account_sharedKey :
    parse sharedKey "wrangler.toml" =
      .error (.unnamed "wrangler.toml" .durableObject (some ⟨55, 8⟩)) ∧
    LastWithKey sharedKey.toList "bindings".toList (sharedKey.toList.take 46) otherHeader
      (sharedKey.toList.drop 66) :=
  ⟨parse_sharedKey, ((unnamed_account parse_sharedKey).1 _ _ _).1 marks_sharedKey⟩

theorem not_sparesOthers_sharedKey : ¬ SparesOthers sharedKey "wrangler.toml" := by
  intro h
  have hheader : IsHeader .unsafeBinding [] otherHeader := ⟨.doubled, by decide, by decide⟩
  have hkind := h _ _ _ parse_sharedKey _ _ _ _ _ marks_sharedKey (.inl rfl) hheader
  exact absurd hkind (by decide)

end WorkerEnv.Manifest
