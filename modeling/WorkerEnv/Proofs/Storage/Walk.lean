/-
# WorkerEnv.Proofs.Storage.Walk -- walking a tree and walking a text

There are no links, so where a path leads can be read off its segments: `landing` is that location,
and `passed` are the locations on the way. A walk through a well-formed tree that ends in a directory
(`enter`) succeeds exactly if all of them are directories that can be searched, and when it fails the
fault says what is in the way. Segments that say nothing make no difference to such a walk.
-/

import WorkerEnv.Proofs.Storage.Tree

namespace WorkerEnv.Storage

/-! ## Where segments lead -/

/-- The location that a list of segments leads to, if everything on the way is there. -/
def landing (here : Location) : List String → Location
  | [] => here
  | s :: rest =>
    if isTrivial s then landing here rest
    else if s = ".." then landing here.dropLast rest
    else landing (here ++ [s]) rest

theorem landing_append (here : Location) (parts more : List String) :
    landing here (parts ++ more) = landing (landing here parts) more := by
  induction parts generalizing here with
  | nil => rfl
  | cons s rest ih => simp only [List.cons_append, landing, ih]; split_ifs <;> rfl

theorem self_mem_passed (here : Location) (parts : List String) : here ∈ passed here parts := by
  induction parts generalizing here with
  | nil => simp [passed]
  | cons s rest ih =>
    rw [passed]
    split_ifs
    · exact ih here
    · exact List.mem_cons_self
    · exact List.mem_cons_self

theorem mem_passed_append {here p : Location} {parts more : List String} :
    p ∈ passed here (parts ++ more) ↔
      p ∈ passed here parts ∨ p ∈ passed (landing here parts) more := by
  induction parts generalizing here with
  | nil =>
    simp only [List.nil_append, passed, landing, List.mem_singleton]
    constructor
    · exact Or.inr
    · rintro (rfl | h)
      · exact self_mem_passed p more
      · exact h
  | cons s rest ih =>
    rw [List.cons_append, passed, passed, landing]
    split_ifs
    · exact ih
    · rw [List.mem_cons, List.mem_cons, ih, or_assoc]
    · rw [List.mem_cons, List.mem_cons, ih, or_assoc]

theorem passed_subset_append (here : Location) (parts more : List String) :
    passed here parts ⊆ passed here (parts ++ more) :=
  fun _ hp => mem_passed_append.2 (Or.inl hp)

theorem landing_mem_passed (here : Location) (parts : List String) :
    landing here parts ∈ passed here parts := by
  have h : landing here parts ∈ passed here (parts ++ []) :=
    mem_passed_append.2 (Or.inr (by simp [passed]))
  rwa [List.append_nil] at h

theorem landing_concat {s : String} (hs : IsStep s) (hp : s ≠ "..") (here : Location)
    (parts : List String) : landing here (parts ++ [s]) = landing here parts ++ [s] := by
  rw [landing_append]
  simp [landing, hs.not_trivial, hp]

theorem landing_concat_parent (here : Location) (parts : List String) :
    landing here (parts ++ [".."]) = (landing here parts).dropLast := by
  rw [landing_append]
  simp [landing, show isTrivial ".." = false by decide]

theorem mem_passed_concat {here p : Location} {parts : List String} {s : String} :
    p ∈ passed here (parts ++ [s]) ↔
      p ∈ passed here parts ∨ p = landing here (parts ++ [s]) := by
  -- The landing of `parts` is listed twice in the middle, where two lists meet.
  have hmeet : ∀ q, p ∈ passed here parts ∨ p ∈ [landing here parts, q] ↔
      p ∈ passed here parts ∨ p = q := by
    intro q
    rw [List.mem_cons, List.mem_singleton, ← or_assoc]
    refine or_congr_left (or_iff_left_of_imp ?_)
    rintro rfl
    exact landing_mem_passed here parts
  rw [mem_passed_append, landing_append]
  simp only [passed, landing]
  split_ifs
  · rw [List.mem_singleton]
  · exact hmeet _
  · exact hmeet _

/-- Without steps to the parent everything that is passed lies above the landing. -/
theorem exists_landing_eq_append {here p : Location} {parts : List String}
    (hp : p ∈ passed here parts) (hparent : ".." ∉ parts) : ∃ below, landing here parts = p ++ below := by
  induction parts generalizing here p with
  | nil =>
    rw [passed, List.mem_singleton] at hp
    exact ⟨[], by rw [landing, hp, List.append_nil]⟩
  | cons s rest ih =>
    rw [List.mem_cons, not_or] at hparent
    have hs : s ≠ ".." := Ne.symm hparent.1
    rw [passed] at hp
    rw [landing]
    split_ifs at hp ⊢
    · exact ih hp hparent.2
    · rcases List.mem_cons.1 hp with rfl | hp
      · obtain ⟨below, hbelow⟩ := ih (self_mem_passed (p ++ [s]) rest) hparent.2
        exact ⟨s :: below, by rw [hbelow, List.append_assoc, List.singleton_append]⟩
      · exact ih hp hparent.2

namespace FileTree

variable {t t' : FileTree} {here : Location} {parts : List String}

/-! ## Walks piece by piece -/

theorem walk_append_of_ok {more : List String} {p : Location}
    (h : t.walk here parts = .ok p) : t.walk here (parts ++ more) = t.walk p more := by
  induction parts generalizing here with
  | nil =>
    cases h
    rfl
  | cons s rest ih =>
    rw [List.cons_append, walk]
    rw [walk] at h
    split at h
    · cases h
    · cases h
    · split_ifs at h ⊢ with h0 h1 h2 h3
      · exact ih h
      · exact ih h
      · exact ih h
    · split_ifs at h ⊢ with h1 h2
      · exact ih h
      · exact ih h

theorem walk_append_of_error {more : List String} {fault : Fault}
    (h : t.walk here parts = .error fault) : t.walk here (parts ++ more) = .error fault := by
  induction parts generalizing here with
  | nil => cases h
  | cons s rest ih =>
    rw [List.cons_append, walk]
    rw [walk] at h
    split at h
    · exact h
    · exact h
    · split_ifs at h ⊢ with h0 h1 h2 h3
      · exact h
      · exact ih h
      · exact ih h
      · exact ih h
      · exact h
    · split_ifs at h ⊢ with h1 h2
      · exact ih h
      · exact ih h
      · exact h

/-- An empty segment is passed over, without a search. -/
theorem walk_cons_empty (h : t.get? here = some .directory) (rest : List String) :
    t.walk here ("" :: rest) = t.walk here rest := by
  have hempty : isTrivial "" := by decide
  simp [walk, h, hempty]

/-! ## Entering a directory -/

/-- Where a list of segments leads, if that is a directory that can be searched. -/
def enter (t : FileTree) (here : Location) (parts : List String) : Except Fault Location :=
  match t.walk here parts with
  | .error fault => .error fault
  | .ok place =>
    match t.get? place with
    | some .directory => if t.refuses place .search then .error .refused else .ok place
    | some (.file _) => .error .notDirectory
    | _ => .error .notFound

/-- All locations that a list of segments passes are directories, also the last one. -/
def Leads (t : FileTree) (here : Location) (parts : List String) : Prop :=
  ∀ p ∈ passed here parts, t.get? p = some .directory

/-- No location that a list of segments passes refuses to be searched, not even the last one. -/
def Opens (t : FileTree) (here : Location) (parts : List String) : Prop :=
  ∀ p ∈ passed here parts, t.refuses p .search = false

instance (t : FileTree) (here : Location) (parts : List String) : Decidable (t.Opens here parts) :=
  inferInstanceAs (Decidable (∀ p ∈ passed here parts, t.refuses p .search = false))

/-- A list of segments leads through directories that can be searched, and to one. -/
structure Enters (t : FileTree) (here : Location) (parts : List String) : Prop where
  leads : t.Leads here parts
  opens : t.Opens here parts

/-- What is in the way of a list of segments, for each fault that it can run into. -/
def Obstacle (t : FileTree) (here : Location) (parts : List String) : Fault → Prop
  | .notFound => ∃ p ∈ passed here parts, t.get? p = none
  | .notDirectory => ∃ p ∈ passed here parts, ∃ bytes, t.get? p = some (.file bytes)
  | .unusable => ∃ s ∈ parts, ¬ fits s
  | .refused => ∃ p ∈ passed here parts, t.refuses p .search
  | _ => False

theorem enter_of_missing (h : t.get? here = none) (parts : List String) :
    t.enter here parts = .error .notFound := by
  cases parts <;> simp [enter, walk, h]

theorem enter_of_file {bytes : List UInt8} (h : t.get? here = some (.file bytes))
    (parts : List String) : t.enter here parts = .error .notDirectory := by
  cases parts <;> simp [enter, walk, h]

/-- A directory that refuses to be searched is not even entered from itself. -/
theorem enter_of_shut (h : t.get? here = some .directory) (hshut : t.refuses here .search)
    (parts : List String) : t.enter here parts = .error .refused := by
  induction parts with
  | nil => simp [enter, walk, h, hshut]
  | cons s rest ih =>
    by_cases hs : s = ""
    · rw [hs, enter, walk_cons_empty h, ← enter, ih]
    · simp [enter, walk, h, hshut, hs]

theorem enter_nil (h : t.get? here = some .directory) (hopen : t.refuses here .search = false) :
    t.enter here [] = .ok here := by
  simp [enter, walk, h, hopen]

theorem enter_cons (h : t.get? here = some .directory) (hopen : t.refuses here .search = false)
    (s : String) (rest : List String) :
    t.enter here (s :: rest) =
      if isTrivial s then t.enter here rest
      else if s = ".." then t.enter here.dropLast rest
      else if fits s then t.enter (here ++ [s]) rest
      else .error .unusable := by
  simp only [enter, walk, h, hopen, Bool.false_eq_true, false_and, if_false]
  split_ifs <;> rfl

theorem Obstacle.mono {start next : Location} {parts more : List String} {fault : Fault}
    (hpassed : passed next more ⊆ passed start parts) (hmore : more ⊆ parts)
    (h : t.Obstacle next more fault) : t.Obstacle start parts fault := by
  cases fault with
  | notFound =>
    obtain ⟨p, hp, hget⟩ := h
    exact ⟨p, hpassed hp, hget⟩
  | notDirectory =>
    obtain ⟨p, hp, hget⟩ := h
    exact ⟨p, hpassed hp, hget⟩
  | unusable =>
    obtain ⟨s, hs, hfits⟩ := h
    exact ⟨s, hmore hs, hfits⟩
  | refused =>
    obtain ⟨p, hp, hshut⟩ := h
    exact ⟨p, hpassed hp, hshut⟩
  | isDirectory => exact h
  | alreadyThere => exact h

theorem enters_nil (h : t.get? here = some .directory) (hopen : t.refuses here .search = false) :
    t.Enters here [] :=
  ⟨by simpa [Leads, passed] using h, by simpa [Opens, passed] using hopen⟩

/-- What is entered is only a matter of the locations that are passed. -/
theorem Enters.of_passed {next : Location} {more : List String} (h : t.Enters next more)
    (hpassed : passed here parts = passed next more) : t.Enters here parts := by
  constructor
  · rw [Leads, hpassed]
    exact h.leads
  · rw [Opens, hpassed]
    exact h.opens

/-- One segment that leads on to another location, before others. -/
theorem Enters.cons {next : Location} {s : String} {rest : List String} (h : t.Enters next rest)
    (hget : t.get? here = some .directory) (hopen : t.refuses here .search = false)
    (hpassed : passed here (s :: rest) = here :: passed next rest) : t.Enters here (s :: rest) := by
  constructor
  · rw [Leads, hpassed]
    exact List.forall_mem_cons.2 ⟨hget, h.leads⟩
  · rw [Opens, hpassed]
    exact List.forall_mem_cons.2 ⟨hopen, h.opens⟩

/-- A walk through a well-formed tree enters its landing, with nothing but open directories on the
way, or meets an obstacle. -/
theorem enter_cases (ht : t.WellFormed) {here : Location} {parts : List String}
    (hh : t.get? here = some .directory) (hparts : ∀ s ∈ parts, '/' ∉ s.toList) :
    (t.Enters here parts ∧ t.enter here parts = .ok (landing here parts)) ∨
      ∃ fault, t.Obstacle here parts fault ∧ t.enter here parts = .error fault := by
  induction parts generalizing here with
  | nil =>
    by_cases hshut : t.refuses here .search
    · exact Or.inr ⟨.refused, ⟨here, self_mem_passed here [], hshut⟩, enter_of_shut hh hshut []⟩
    · have hopen := Bool.eq_false_iff.2 hshut
      exact Or.inl ⟨enters_nil hh hopen, enter_nil hh hopen⟩
  | cons s rest ih =>
    by_cases hshut : t.refuses here .search
    · exact Or.inr ⟨.refused, ⟨here, self_mem_passed here _, hshut⟩, enter_of_shut hh hshut _⟩
    have hopen := Bool.eq_false_iff.2 hshut
    have hrest := (List.forall_mem_cons.1 hparts).2
    rw [enter_cons hh hopen, landing]
    by_cases h1 : isTrivial s
    · have hpassed : passed here (s :: rest) = passed here rest := by rw [passed, if_pos h1]
      rw [if_pos h1, if_pos h1]
      refine (ih hh hrest).imp ?_ ?_
      · rintro ⟨henters, he⟩
        exact ⟨henters.of_passed hpassed, he⟩
      · rintro ⟨fault, hobs, he⟩
        refine ⟨fault, hobs.mono ?_ (List.subset_cons_self s rest), he⟩
        rw [hpassed]
        exact List.Subset.refl _
    -- Any other segment leads on to a new location, after which the rest decides.
    have hon : ∀ next, t.get? next = some .directory →
        passed here (s :: rest) = here :: passed next rest →
        (t.Enters here (s :: rest) ∧ t.enter next rest = .ok (landing next rest)) ∨
          ∃ fault, t.Obstacle here (s :: rest) fault ∧ t.enter next rest = .error fault := by
      intro next hnext hpassed
      refine (ih hnext hrest).imp ?_ ?_
      · rintro ⟨henters, he⟩
        exact ⟨henters.cons hh hopen hpassed, he⟩
      · rintro ⟨fault, hobs, he⟩
        refine ⟨fault, hobs.mono ?_ (List.subset_cons_self s rest), he⟩
        rw [hpassed]
        exact List.subset_cons_self here _
    by_cases h2 : s = ".."
    · rw [if_neg h1, if_pos h2, if_neg h1, if_pos h2]
      exact hon _ (ht.directory_dropLast hh) (by rw [passed, if_neg h1, if_pos h2])
    have hpassed : passed here (s :: rest) = here :: passed (here ++ [s]) rest := by
      rw [passed, if_neg h1, if_neg h2]
    rw [if_neg h1, if_neg h2, if_neg h1, if_neg h2]
    by_cases h3 : fits s
    · rw [if_pos h3]
      have hmem : here ++ [s] ∈ passed here (s :: rest) := by
        rw [hpassed]
        exact List.mem_cons_of_mem _ (self_mem_passed _ rest)
      cases hnext : t.get? (here ++ [s]) with
      | none => exact Or.inr ⟨.notFound, ⟨_, hmem, hnext⟩, enter_of_missing hnext rest⟩
      | some entry =>
        cases entry with
        | directory => exact hon _ hnext hpassed
        | file bytes =>
          exact Or.inr ⟨.notDirectory, ⟨_, hmem, bytes, hnext⟩, enter_of_file hnext rest⟩
        | removed => exact absurd hnext (ht.ne_removed (hparts s (by simp)))
    · rw [if_neg h3]
      exact Or.inr ⟨.unusable, ⟨s, by simp, h3⟩, rfl⟩

theorem Leads.self (h : t.Leads here parts) : t.get? here = some .directory :=
  h here (self_mem_passed here parts)

theorem Leads.at_landing (h : t.Leads here parts) :
    t.get? (landing here parts) = some .directory :=
  h _ (landing_mem_passed here parts)

theorem Leads.grown {region : List Location} (h : t.Leads here parts)
    (hgrown : GrownBy region t t') : t'.Leads here parts := by
  intro p hp
  exact hgrown.kept (h p hp)

theorem opens_congr (h : t'.refusals = t.refusals) : t'.Opens here parts ↔ t.Opens here parts := by
  simp only [Opens, refuses_congr h]

theorem enter_of_enters (ht : t.WellFormed) (h : t.Enters here parts) :
    t.enter here parts = .ok (landing here parts) := by
  obtain ⟨hleads, hopens⟩ := h
  induction parts generalizing here with
  | nil => exact enter_nil hleads.self (hopens here (self_mem_passed here []))
  | cons s rest ih =>
    rw [enter_cons hleads.self (hopens here (self_mem_passed here _)), landing]
    rw [Leads, passed] at hleads
    rw [Opens, passed] at hopens
    split_ifs at hleads hopens ⊢ with h1 h2 h3
    · exact ih hleads hopens
    · exact ih (List.forall_mem_cons.1 hleads).2 (List.forall_mem_cons.1 hopens).2
    · exact ih (List.forall_mem_cons.1 hleads).2 (List.forall_mem_cons.1 hopens).2
    · have hnext := (List.forall_mem_cons.1 hleads).2 _ (self_mem_passed _ rest)
      exact absurd (ht.held hnext (by simp)).2.fits h3

/-- A walk enters a directory exactly if everything on the way is one and can be searched. -/
theorem enter_eq_ok_iff (ht : t.WellFormed) (hh : t.get? here = some .directory)
    (hparts : ∀ s ∈ parts, '/' ∉ s.toList) {place : Location} :
    t.enter here parts = .ok place ↔ t.Enters here parts ∧ place = landing here parts := by
  constructor
  · intro h
    rcases enter_cases ht hh hparts with ⟨henters, he⟩ | ⟨fault, -, he⟩
    · rw [h] at he
      exact ⟨henters, Except.ok.inj he⟩
    · rw [h] at he
      cases he
  · rintro ⟨henters, rfl⟩
    exact enter_of_enters ht henters

theorem enter_of_removed (h : t.get? here = some .removed) (s : String) (rest : List String) :
    t.enter here (s :: rest) =
      if isTrivial s then t.enter here rest
      else if s = ".." then t.enter here.dropLast rest
      else .error .notFound := by
  simp only [enter, walk, h]
  split_ifs <;> rfl

/-- Segments that say nothing make no difference to entering a directory. -/
theorem enter_filter (here : Location) (parts : List String) :
    t.enter here (parts.filter (!isTrivial ·)) = t.enter here parts := by
  induction parts generalizing here with
  | nil => rfl
  | cons s rest ih =>
    cases hget : t.get? here with
    | none => rw [enter_of_missing hget, enter_of_missing hget]
    | some entry =>
      cases entry with
      | file bytes => rw [enter_of_file hget, enter_of_file hget]
      | directory =>
        by_cases hshut : t.refuses here .search
        · rw [enter_of_shut hget hshut, enter_of_shut hget hshut]
        have hopen := Bool.eq_false_iff.2 hshut
        by_cases hs : isTrivial s
        · rw [List.filter_cons_of_neg (by simp [hs]), ih here, enter_cons hget hopen, if_pos hs]
        · rw [List.filter_cons_of_pos (by simp [hs])]
          simp only [enter_cons hget hopen, ih]
      | removed =>
        by_cases hs : isTrivial s
        · rw [List.filter_cons_of_neg (by simp [hs]), ih here, enter_of_removed hget, if_pos hs]
        · rw [List.filter_cons_of_pos (by simp [hs])]
          simp only [enter_of_removed hget, ih]

theorem walk_of_enter {place : Location} (h : t.enter here parts = .ok place) :
    t.walk here parts = .ok place ∧ t.get? place = some .directory ∧
      t.refuses place .search = false := by
  rw [enter] at h
  split at h
  · cases h
  · next p hw =>
    split at h
    · next hget =>
      split_ifs at h with hshut
      cases h
      exact ⟨hw, hget, Bool.eq_false_iff.2 hshut⟩
    · cases h
    · cases h

theorem enter_append {place : Location} (h : t.enter here parts = .ok place)
    (more : List String) : t.enter here (parts ++ more) = t.enter place more := by
  rw [enter, walk_append_of_ok (walk_of_enter h).1, enter]

/-- What cannot be entered for a refusal cannot be gone through either. -/
theorem enter_append_of_refused (h : t.enter here parts = .error .refused) (more : List String) :
    t.enter here (parts ++ more) = .error .refused := by
  rw [enter] at h
  split at h
  · next fault hw =>
    cases h
    rw [enter, walk_append_of_error hw]
  · next p hw =>
    split at h
    · next hget =>
      split_ifs at h with hshut
      have hmore := enter_of_shut hget hshut more
      rwa [enter, ← walk_append_of_ok hw, ← enter] at hmore
    · cases h
    · cases h

/-! ## One name further -/

theorem walk_concat_of_enter {place : Location} {s : String} (hs : IsStep s) (hp : s ≠ "..")
    (h : t.enter here parts = .ok place) :
    t.walk here (parts ++ [s]) = if fits s then .ok (place ++ [s]) else .error .unusable := by
  obtain ⟨hw, hget, hopen⟩ := walk_of_enter h
  rw [walk_append_of_ok hw]
  simp [walk, hget, hopen, hs.not_trivial, hp]

/-- A step from where nothing can be entered meets the same fault, unless it leads up from a directory
that was taken away. -/
theorem walk_concat_of_enter_error {fault : Fault} {s : String} (hs : IsStep s)
    (hp : s ≠ ".." ∨ ∀ p, t.walk here parts = .ok p → t.get? p ≠ some .removed)
    (h : t.enter here parts = .error fault) : t.walk here (parts ++ [s]) = .error fault := by
  rw [enter] at h
  split at h
  · next fault' hw =>
    cases h
    exact walk_append_of_error hw
  · next p hw =>
    rw [walk_append_of_ok hw]
    split at h
    · next hget =>
      split_ifs at h with hshut
      cases h
      simp [walk, hget, hshut, hs.ne_empty]
    · next hget =>
      cases h
      simp [walk, hget]
    · next hdir hfile =>
      cases h
      cases hget : t.get? p with
      | none => simp [walk, hget]
      | some entry =>
        cases entry with
        | directory => exact absurd hget hdir
        | file bytes => exact absurd hget (hfile bytes)
        | removed =>
          have hstep : s ≠ ".." := hp.resolve_right fun hnot => hnot p hw hget
          simp [walk, hget, hs.not_trivial, hstep]

/-- No walk that starts in a directory of a well-formed tree comes to one that was taken away. -/
theorem walk_ne_removed (ht : t.WellFormed) (hh : t.get? here = some .directory)
    (hparts : ∀ s ∈ parts, '/' ∉ s.toList) {place : Location}
    (h : t.walk here parts = .ok place) : t.get? place ≠ some .removed := by
  induction parts generalizing here with
  | nil =>
    cases h
    simp [hh]
  | cons s rest ih =>
    have hrest := (List.forall_mem_cons.1 hparts).2
    simp only [walk, hh] at h
    split_ifs at h with h0 h1 h2 h3
    · exact ih hh hrest h
    · exact ih (ht.directory_dropLast hh) hrest h
    · cases hnext : t.get? (here ++ [s]) with
      | none =>
        cases rest with
        | nil =>
          cases h
          simp [hnext]
        | cons q qs => simp [walk, hnext] at h
      | some entry =>
        cases entry with
        | directory => exact ih hnext hrest h
        | file bytes =>
          cases rest with
          | nil =>
            cases h
            simp [hnext]
          | cons q qs => simp [walk, hnext] at h
        | removed => exact absurd hnext (ht.ne_removed (hparts s (by simp)))

theorem site_concat_of_enter {place : Location} {s : String} (hs : IsStep s)
    (h : t.enter here parts = .ok place) :
    t.site here (parts ++ [s]) =
      if s = ".." then .error .alreadyThere
      else if fits s then .ok (place ++ [s]) else .error .unusable := by
  obtain ⟨hw, hget, hopen⟩ := walk_of_enter h
  simp [site, hw, hget, hopen, hs.not_trivial, bind, Except.bind]

theorem site_concat_of_enter_error (ht : t.WellFormed) (hh : t.get? here = some .directory)
    (hparts : ∀ s ∈ parts, '/' ∉ s.toList) {fault : Fault} {s : String}
    (h : t.enter here parts = .error fault) : t.site here (parts ++ [s]) = .error fault := by
  simp only [site, List.getLast?_concat, List.dropLast_concat]
  rw [enter] at h
  split at h
  · next fault' hw =>
    cases h
    rw [hw]
    rfl
  · next p hw =>
    rw [hw]
    cases hget : t.get? p with
    | none =>
      simp only [hget] at h
      simpa [bind, Except.bind, hget] using h
    | some entry =>
      cases entry with
      | directory =>
        simp only [hget] at h
        split_ifs at h with hshut
        simpa [bind, Except.bind, hget, hshut] using h
      | file bytes =>
        simp only [hget] at h
        simpa [bind, Except.bind, hget] using h
      | removed => exact absurd hget (walk_ne_removed ht hh hparts hw)

end FileTree

end WorkerEnv.Storage
