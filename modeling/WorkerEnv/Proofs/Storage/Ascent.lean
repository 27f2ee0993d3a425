/-
# WorkerEnv.Proofs.Storage.Ascent -- the way from a directory up to the root

The search for the nearest file takes the absolute form of a path and its lexical parents as they
are spelled, whether they are there or not, and looks at one candidate in each. Such a form has no
segment left that says nothing, so taking it for the start of another search gives the rest of the
same way: a search from anywhere on it before the file comes to the same file.

`upward` spells the way out. A second slash at the start is kept by all paths but the root.
-/

import Mathlib.Data.List.Infix
import WorkerEnv.Proofs.Storage.Rooted

namespace WorkerEnv.Storage

open FileTree

variable {t : FileTree} {here : Location}

/-! ## Looking at candidates -/

/-- A path leads to a file. -/
def IsFile (t : FileTree) (here : Location) (path : String) : Prop :=
  ∃ place bytes, t.find here path = .ok (place, .file bytes)

/-- A path leads to a directory, or something on the way is not there. -/
def IsPassed (t : FileTree) (here : Location) (path : String) : Prop :=
  t.isDirectory here path ∨ t.find here path = .error .notFound

/-- A path cannot be looked at, for another reason than that something is not there. -/
def IsBarred (t : FileTree) (here : Location) (path : String) : Prop :=
  ∃ fault, t.find here path = .error fault ∧ fault ≠ .notFound

/-- A search in these directories comes to one of them: in all before it there is nothing to find. -/
structure Reaches (t : FileTree) (here : Location) (name : String) (dirs before : List String)
    (dir : String) : Prop where
  split : ∃ after, dirs = before ++ dir :: after
  passed : ∀ d ∈ before, IsPassed t here (join d name)

section Candidates

variable {path name dir : String} {candidates before dirs : List String}

theorem candidate_cases (t : FileTree) (here : Location) (path : String) :
    IsFile t here path ∨ IsPassed t here path ∨ IsBarred t here path := by
  cases hfind : t.find here path with
  | error fault =>
    by_cases hfault : fault = .notFound
    · subst hfault
      exact .inr (.inl (.inr hfind))
    · exact .inr (.inr ⟨fault, hfind, hfault⟩)
  | ok found =>
    obtain ⟨place, entry⟩ := found
    cases entry with
    | file bytes => exact .inl ⟨place, bytes, hfind⟩
    | directory => exact .inr (.inl (.inl (by rw [isDirectory, hfind])))
    | removed => exact .inr (.inl (.inl (by rw [isDirectory, hfind])))

theorem firstFile_of_isFile (h : IsFile t here path) :
    firstFile t here (path :: candidates) = .ok (some path) := by
  obtain ⟨place, bytes, hfind⟩ := h
  rw [firstFile, hfind]

theorem firstFile_of_isPassed (h : IsPassed t here path) :
    firstFile t here (path :: candidates) = firstFile t here candidates := by
  rw [firstFile]
  rcases h with hdirectory | hfind
  · rw [isDirectory] at hdirectory
    split at hdirectory
    · next hfind => rw [hfind]
    · next hfind => rw [hfind]
    · cases hdirectory
  · rw [hfind]

theorem firstFile_of_isBarred (h : IsBarred t here path) :
    firstFile t here (path :: candidates) = .error (.inaccessible path) := by
  obtain ⟨fault, hfind, hfault⟩ := h
  rw [firstFile, hfind]
  cases fault <;> first | exact absurd rfl hfault | rfl

theorem firstFile_append (h : ∀ d ∈ before, IsPassed t here (join d name)) :
    firstFile t here ((before ++ dirs).map (join · name)) =
      firstFile t here (dirs.map (join · name)) := by
  induction before with
  | nil => rfl
  | cons d before ih =>
    obtain ⟨hd, hbefore⟩ := List.forall_mem_cons.1 h
    rw [List.cons_append, List.map_cons, firstFile_of_isPassed hd, ih hbefore]

theorem firstFile_of_all (h : ∀ d ∈ dirs, IsPassed t here (join d name)) :
    firstFile t here (dirs.map (join · name)) = .ok none := by
  rw [← List.append_nil dirs, firstFile_append h]
  rfl

theorem Reaches.firstFile_of_isFile (h : Reaches t here name dirs before dir)
    (hfile : IsFile t here (join dir name)) :
    firstFile t here (dirs.map (join · name)) = .ok (some (join dir name)) := by
  obtain ⟨after, rfl⟩ := h.split
  rw [firstFile_append h.passed]
  exact Storage.firstFile_of_isFile hfile

theorem Reaches.firstFile_of_isBarred (h : Reaches t here name dirs before dir)
    (hbarred : IsBarred t here (join dir name)) :
    firstFile t here (dirs.map (join · name)) = .error (.inaccessible (join dir name)) := by
  obtain ⟨after, rfl⟩ := h.split
  rw [firstFile_append h.passed]
  exact Storage.firstFile_of_isBarred hbarred

/-- A search passes over everything, or comes to a directory that ends it. -/
theorem search_cases (t : FileTree) (here : Location) (name : String) (dirs : List String) :
    (∀ d ∈ dirs, IsPassed t here (join d name)) ∨
      ∃ before dir, Reaches t here name dirs before dir ∧
        (IsFile t here (join dir name) ∨ IsBarred t here (join dir name)) := by
  induction dirs with
  | nil => exact .inl (by simp)
  | cons d dirs ih =>
    rcases candidate_cases t here (join d name) with hfile | hpassed | hbarred
    · exact .inr ⟨[], d, ⟨⟨dirs, rfl⟩, by simp⟩, .inl hfile⟩
    · refine ih.imp (fun hall => List.forall_mem_cons.2 ⟨hpassed, hall⟩) ?_
      rintro ⟨before, dir, ⟨⟨after, hsplit⟩, hbefore⟩, hend⟩
      refine ⟨d :: before, dir, ⟨⟨after, ?_⟩, List.forall_mem_cons.2 ⟨hpassed, hbefore⟩⟩, hend⟩
      rw [hsplit, List.cons_append]
    · exact .inr ⟨[], d, ⟨⟨dirs, rfl⟩, by simp⟩, .inr hbarred⟩

theorem firstFile_eq_some_iff :
    firstFile t here (dirs.map (join · name)) = .ok (some path) ↔
      ∃ before dir, Reaches t here name dirs before dir ∧ IsFile t here (join dir name) ∧
        path = join dir name := by
  constructor
  · intro h
    rcases search_cases t here name dirs with hall | ⟨before, dir, hreach, hfile | hbarred⟩
    · rw [firstFile_of_all hall] at h
      cases h
    · rw [hreach.firstFile_of_isFile hfile] at h
      cases h
      exact ⟨before, dir, hreach, hfile, rfl⟩
    · rw [hreach.firstFile_of_isBarred hbarred] at h
      cases h
  · rintro ⟨before, dir, hreach, hfile, rfl⟩
    exact hreach.firstFile_of_isFile hfile

theorem firstFile_eq_error_iff {failure : Failure} :
    firstFile t here (dirs.map (join · name)) = .error failure ↔
      ∃ before dir, Reaches t here name dirs before dir ∧ IsBarred t here (join dir name) ∧
        failure = .inaccessible (join dir name) := by
  constructor
  · intro h
    rcases search_cases t here name dirs with hall | ⟨before, dir, hreach, hfile | hbarred⟩
    · rw [firstFile_of_all hall] at h
      cases h
    · rw [hreach.firstFile_of_isFile hfile] at h
      cases h
    · rw [hreach.firstFile_of_isBarred hbarred] at h
      cases h
      exact ⟨before, dir, hreach, hbarred, rfl⟩
  · rintro ⟨before, dir, hreach, hbarred, rfl⟩
    exact hreach.firstFile_of_isBarred hbarred

theorem firstFile_eq_none_iff :
    firstFile t here (dirs.map (join · name)) = .ok none ↔
      ∀ d ∈ dirs, IsPassed t here (join d name) := by
  refine ⟨fun h => ?_, firstFile_of_all⟩
  rcases search_cases t here name dirs with hall | ⟨before, dir, hreach, hfile | hbarred⟩
  · exact hall
  · rw [hreach.firstFile_of_isFile hfile] at h
    cases h
  · rw [hreach.firstFile_of_isBarred hbarred] at h
    cases h

end Candidates

/-! ## Directories that are not there -/

section Missing

variable {start : Location} {parts more : List String} {dir name path : String}

/-- Segments lead to nothing: something on the way is not there, or what they lead to is not. -/
def LeadsNowhere (t : FileTree) (start : Location) (parts : List String) : Prop :=
  t.walk start parts = .error .notFound ∨
    ∃ place, t.walk start parts = .ok place ∧ t.get? place = none

theorem leadsNowhere_of_find (hne : path ≠ "") (hu : usable path)
    (h : t.find here path = .error .notFound) :
    LeadsNowhere t (startOf here path) (segments path) := by
  rw [find, resolve_of_usable hne hu] at h
  cases hwalk : t.walk (startOf here path) (segments path) with
  | error fault =>
    rw [hwalk] at h
    cases h
    exact .inl hwalk
  | ok place =>
    cases hget : t.get? place with
    | none => exact .inr ⟨place, hwalk, hget⟩
    | some entry => simp [hwalk, hget, bind, Except.bind, pure, Except.pure] at h

theorem LeadsNowhere.walk_append (h : LeadsNowhere t start parts) (hmore : more ≠ []) :
    t.walk start (parts ++ more) = .error .notFound := by
  rcases h with hwalk | ⟨place, hwalk, hget⟩
  · exact walk_append_of_error hwalk
  · obtain ⟨s, rest, rfl⟩ := List.exists_cons_of_ne_nil hmore
    rw [walk_append_of_ok hwalk, walk, hget]

/-- A slash at the end makes no difference to it. -/
theorem LeadsNowhere.of_concat_empty (h : LeadsNowhere t start (parts ++ [""])) :
    LeadsNowhere t start parts := by
  have hempty : isTrivial "" := by decide
  unfold LeadsNowhere at h ⊢
  cases hwalk : t.walk start parts with
  | error fault =>
    rw [walk_append_of_error hwalk] at h
    simpa using h
  | ok place =>
    rw [walk_append_of_ok hwalk] at h
    simp only [walk, hempty, if_true] at h
    cases hget : t.get? place with
    | none => exact .inr ⟨place, rfl, hget⟩
    | some entry => cases entry <;> simp [hget] at h

/-- In a directory that is not there nothing is found, and the search goes on. -/
theorem isPassed_of_missing (hdir : dir ≠ "") (hname : ¬ isAbsolute name)
    (hu : usable (join dir name)) (h : t.find here dir = .error .notFound) :
    IsPassed t here (join dir name) := by
  have hudir : usable dir := by
    rw [join_of_relative hname] at hu
    split_ifs at hu
    · exact usable_of_append hu
    · rw [String.append_assoc] at hu
      exact usable_of_append hu
  have hnowhere := leadsNowhere_of_find hdir hudir h
  have hwalk : t.walk (startOf here dir) (segments (join dir name)) = .error .notFound := by
    rw [join_of_relative hname]
    split_ifs with hlast
    · obtain ⟨a, rfl, hsegments⟩ := exists_of_slash_end (hlast.resolve_left hdir)
      rw [hsegments] at hnowhere
      rw [segments_append_slash]
      exact hnowhere.of_concat_empty.walk_append (segments_ne_nil name)
    · rw [segments_append_slash]
      exact hnowhere.walk_append (segments_ne_nil name)
  refine .inr ?_
  rw [find, resolve_of_usable (join_ne_empty_of_base hdir name) hu,
    startOf_join_of_relative hname hdir, hwalk]
  rfl

end Missing

/-! ## Absolute forms -/

/-- Whether a path begins with exactly two slashes. -/
def isDoubled (path : String) : Bool :=
  match path.toList with
  | '/' :: '/' :: '/' :: _ => false
  | '/' :: '/' :: _ => true
  | _ => false

/-- The path of a location, with one slash at its start or two. -/
def spelled (doubled : Bool) (place : Location) : String :=
  if doubled then "/" ++ locationText place else locationText place

/-- The paths from a location up to the root, the longest first. -/
def upward (doubled : Bool) (place : Location) : List String :=
  if place = [] then [spelled doubled []]
  else place.inits.tail.reverse.map (spelled doubled) ++ ["/"]

theorem absolute?_eq {path : String} (hne : path ≠ "") (here : Location) :
    absolute? here path = some (spelled (isDoubled path) (startOf here path ++ steps path)) := by
  rw [absolute?, if_neg hne, startOf, spelled]
  by_cases habs : isAbsolute path
  · rw [if_pos habs, if_pos habs, List.nil_append]
    unfold isDoubled
    generalize path.toList = cs
    split <;> simp [*]
  · have hdoubled : ¬ isDoubled path := by
      unfold isDoubled
      split
      · simp
      · next hpath => simp [isAbsolute, hpath] at habs
      · simp
    rw [if_neg habs, if_neg habs, if_neg hdoubled]

section Upward

variable {doubled : Bool} {place : Location}

theorem spelled_true : spelled true place = "" ++ "/" ++ locationText place := by
  rw [String.empty_append]
  rfl

theorem isAbsolute_spelled : isAbsolute (spelled doubled place) := by
  cases doubled with
  | false => exact isAbsolute_locationText
  | true => exact isAbsolute_iff.2 ⟨_, rfl⟩

/-- The empty segments between the root and the first name. -/
def gap (doubled : Bool) : List String := if doubled then [""] else []

/-- The segments of a spelled path: nothing before each of the slashes at its start, and then the
names of the location. -/
theorem segments_spelled (hplace : ∀ s ∈ place, IsStep s) (hne : place ≠ []) :
    segments (spelled doubled place) = "" :: (gap doubled ++ place) := by
  have hlocation := segments_locationText hplace hne
  cases doubled with
  | false => exact hlocation
  | true =>
    rw [spelled_true, segments_append_slash, segments_empty, hlocation]
    rfl

/-- Taking steps away from the end, one after the other. What says nothing in front of them goes
along with the first. -/
theorem remainders_steps {parts gap : List String} (hparts : ∀ s ∈ parts, IsStep s)
    (hgap : ∀ s ∈ gap, isTrivial s) :
    remainders (parts ++ gap) =
      parts.tails.tail.map fun rest => if rest = [] then [] else rest ++ gap := by
  have hnone : gap.dropWhile isTrivial = [] := List.dropWhile_eq_nil_iff.2 hgap
  induction parts with
  | nil =>
    rw [List.nil_append, ← remainders_dropWhile, hnone]
    rfl
  | cons s rest ih =>
    obtain ⟨hs, hrest⟩ := List.forall_mem_cons.1 hparts
    rw [List.cons_append, remainders, if_neg hs.not_trivial, ih hrest, List.tails_cons,
      List.tail_cons]
    cases rest with
    | nil => simp [hnone]
    | cons q qs =>
      have hq : ¬ isTrivial q := (hrest q (by simp)).not_trivial
      rw [List.tails_cons, List.tail_cons, List.map_cons, List.cons_append,
        List.dropWhile_cons_of_neg hq, if_neg (List.cons_ne_nil _ _)]

/-- The ends of a list backwards are the beginnings of the list, the longest first. -/
theorem map_tails_reverse {α : Type} (f : List String → α) (place : Location) :
    place.reverse.tails.map f =
      place.inits.tail.reverse.map (fun q => f q.reverse) ++ [f []] := by
  have hinits : place.inits = [] :: place.inits.tail := by cases place <;> rfl
  have htails : place.reverse.tails = (place.inits.tail.reverse.map List.reverse) ++ [[]] := by
    rw [List.tails_reverse, hinits]
    simp
  rw [htails, List.map_append, List.map_map]
  rfl

theorem mem_inits_tail {q : Location} (h : q ∈ place.inits.tail) : q <+: place ∧ q ≠ [] := by
  have hmem := (List.mem_inits q place).1 (List.mem_of_mem_tail h)
  refine ⟨hmem, ?_⟩
  rintro rfl
  cases place <;> simp at h

/-- Segments from the end, put together again. -/
theorem ofReversed_spelled (hplace : ∀ s ∈ place, IsStep s)
    (hne : place ≠ []) : ofReversed "" (place.reverse ++ gap doubled) = spelled doubled place := by
  have hgap : (gap doubled).reverse = gap doubled := by
    cases doubled <;> decide
  have hreversed : place.reverse ++ gap doubled ≠ [] := by simp [hne]
  rw [ofReversed_of_ne_nil hreversed, List.reverse_append, List.reverse_reverse, hgap,
    ← segments_spelled hplace hne, ofSegments_segments]

/-- The ancestors of an absolute form, written out. -/
theorem ancestors_spelled (hplace : ∀ s ∈ place, IsStep s) :
    ancestors (spelled doubled place) = upward doubled place := by
  rw [upward]
  split_ifs with hne
  · subst hne
    cases doubled <;> decide
  · have hgap : ∀ s ∈ gap doubled, isTrivial s := by
      cases doubled <;> decide
    have hreverse : ∀ s ∈ place.reverse, IsStep s := fun s hs => hplace s (List.mem_reverse.1 hs)
    have hreversed : (gap doubled ++ place).reverse = place.reverse ++ gap doubled := by
      cases doubled <;> simp [gap]
    have hparents : parents (spelled doubled place) =
        (remainders (place.reverse ++ gap doubled)).map (ofReversed "") := by
      rw [parents_of_segments (segments_spelled hplace hne), hreversed, if_pos rfl, List.append_nil]
    -- The path itself is put together like its parents, from all of its names.
    have hself : place.reverse.tails = place.reverse :: place.reverse.tails.tail := by
      cases place.reverse <;> rfl
    have hall : ancestors (spelled doubled place) = place.reverse.tails.map fun rest =>
        ofReversed "" (if rest = [] then [] else rest ++ gap doubled) := by
      rw [hself, List.map_cons, if_neg (by simp [hne]), ofReversed_spelled hplace hne,
        ancestors, hparents, remainders_steps hreverse hgap, List.map_map]
      rfl
    rw [hall, map_tails_reverse]
    congr 1
    apply List.map_congr_left
    intro q hq
    obtain ⟨hbegins, hq⟩ := mem_inits_tail (List.mem_reverse.1 hq)
    have hsteps : ∀ s ∈ q, IsStep s := fun s hs => hplace s (hbegins.subset hs)
    rw [if_neg (by simp [hq]), ofReversed_spelled hsteps hq]

theorem upward_cases {path : String} (h : path ∈ upward doubled place) :
    path = "/" ∨ path = spelled doubled [] ∨
      ∃ q, q <+: place ∧ q ≠ [] ∧ path = spelled doubled q := by
  rw [upward] at h
  split_ifs at h
  · exact .inr (.inl (List.mem_singleton.1 h))
  · rcases List.mem_append.1 h with hmem | hmem
    · obtain ⟨q, hq, rfl⟩ := List.mem_map.1 hmem
      obtain ⟨hbegins, hne⟩ := mem_inits_tail (List.mem_reverse.1 hq)
      exact .inr (.inr ⟨q, hbegins, hne, rfl⟩)
    · exact .inl (List.mem_singleton.1 hmem)

theorem isAbsolute_of_mem_upward {path : String} (h : path ∈ upward doubled place) :
    isAbsolute path := by
  rcases upward_cases h with rfl | rfl | ⟨q, -, -, rfl⟩
  · rfl
  · exact isAbsolute_spelled
  · exact isAbsolute_spelled

theorem steps_spelled (hplace : ∀ s ∈ place, IsStep s) :
    steps (spelled doubled place) = place := by
  cases doubled with
  | false => exact steps_locationText hplace
  | true =>
    rw [spelled_true, steps_append_slash, steps_empty, List.nil_append, steps_locationText hplace]

theorem isDoubled_spelled (hplace : ∀ s ∈ place, IsStep s)
    (hne : place ≠ []) : isDoubled (spelled doubled place) = doubled := by
  -- No third slash: the first name has none and is not empty.
  obtain ⟨c, cs, hnames, hc⟩ : ∃ c cs, (ofSegments place).toList = c :: cs ∧ c ≠ '/' := by
    have hsegments := segments_ofSegments hne fun s hs => (hplace s hs).no_slash
    obtain ⟨s, rest, rfl⟩ := List.exists_cons_of_ne_nil hne
    have hs := (hplace s (by simp)).ne_empty
    cases hlist : (ofSegments (s :: rest)).toList with
    | nil =>
      have hempty : ofSegments (s :: rest) = "" := by rw [← String.toList_inj, hlist]; rfl
      rw [hempty, segments_of_no_slash (by decide)] at hsegments
      exact absurd (List.cons.inj hsegments).1.symm hs
    | cons c cs =>
      refine ⟨c, cs, rfl, ?_⟩
      rintro rfl
      have habs : isAbsolute (ofSegments (s :: rest)) := by simp [isAbsolute, hlist]
      exact hs ((isAbsolute_iff_segments hsegments).1 habs).1
  have hlocation : (locationText place).toList = '/' :: c :: cs := by
    rw [locationText, String.toList_append, hnames]
    rfl
  cases doubled with
  | false =>
    show isDoubled (locationText place) = false
    simp [isDoubled, hlocation, hc]
  | true =>
    show isDoubled ("/" ++ locationText place) = true
    simp [isDoubled, String.toList_append, hlocation, hc]

/-- The absolute form of a path on the way up is that path itself. -/
theorem absolute?_of_mem_upward {path : String} (hplace : ∀ s ∈ place, IsStep s)
    (h : path ∈ upward doubled place) (here : Location) : absolute? here path = some path := by
  rcases upward_cases h with rfl | rfl | ⟨q, hbegins, hne, rfl⟩
  · rfl
  · cases doubled <;> rfl
  · have hq : ∀ s ∈ q, IsStep s := fun s hs => hplace s (hbegins.subset hs)
    have habs : isAbsolute (spelled doubled q) := isAbsolute_spelled
    rw [absolute?_eq (ne_empty_of_isAbsolute habs), startOf, if_pos habs, List.nil_append, isDoubled_spelled hq hne,
      steps_spelled hq]

theorem getLast?_spelled (hplace : ∀ s ∈ place, IsStep s) (hne : place ≠ []) :
    (spelled doubled place).toList.getLast? ≠ some '/' := by
  have hlast := getLast?_locationText hplace hne
  cases doubled with
  | false => exact hlast
  | true =>
    have hlocation : (locationText place).toList ≠ [] := by
      simpa using ne_empty_of_isAbsolute (isAbsolute_locationText)
    rwa [spelled_true, String.toList_append, List.getLast?_append_of_ne_nil _ hlocation]

/-- What a relative name is put behind, on the way up from a location other than the root. -/
theorem join_upward {path name : String} (hplace : ∀ s ∈ place, IsStep s) (hne : place ≠ [])
    (hname : ¬ isAbsolute name) (h : path ∈ upward doubled place) :
    join path name = (if path = "/" then "/" else path ++ "/") ++ name := by
  have hpath : path = "/" ∨ path ≠ "" ∧ path.toList.getLast? ≠ some '/' := by
    rw [upward, if_neg hne] at h
    rcases List.mem_append.1 h with hmem | hmem
    · obtain ⟨q, hq, rfl⟩ := List.mem_map.1 hmem
      obtain ⟨hbegins, hq⟩ := mem_inits_tail (List.mem_reverse.1 hq)
      have hsteps : ∀ s ∈ q, IsStep s := fun s hs => hplace s (hbegins.subset hs)
      exact .inr ⟨ne_empty_of_isAbsolute isAbsolute_spelled, getLast?_spelled hsteps hq⟩
    · exact .inl (List.mem_singleton.1 hmem)
  rw [join_of_relative hname]
  rcases hpath with rfl | ⟨hpath, hlast⟩
  · rfl
  · have hroot : path ≠ "/" := by
      rintro rfl
      exact hlast rfl
    rw [if_neg (not_or.2 ⟨hpath, hlast⟩), if_neg hroot]

/-- The candidates of a relative name are different texts in different directories. -/
theorem join_injective {path path' name : String} (hplace : ∀ s ∈ place, IsStep s)
    (hname : ¬ isAbsolute name) (h : path ∈ upward doubled place)
    (h' : path' ∈ upward doubled place) (heq : join path name = join path' name) :
    path = path' := by
  by_cases hne : place = []
  · rw [upward, if_pos hne, List.mem_singleton] at h h'
    rw [h, h']
  · rw [join_upward hplace hne hname h, join_upward hplace hne hname h', ← String.toList_inj,
      String.toList_append, String.toList_append] at heq
    have hbase := String.toList_inj.1 (List.append_cancel_right heq)
    have hslash : ∀ {p : String}, p ∈ upward doubled place → p ++ "/" ≠ "/" := by
      intro p hp hempty
      apply ne_empty_of_isAbsolute (isAbsolute_of_mem_upward hp)
      simpa using hempty
    split_ifs at hbase with hroot hroot' hroot'
    · rw [hroot, hroot']
    · exact absurd hbase.symm (hslash h')
    · exact absurd hbase (hslash h)
    · rw [← String.toList_inj, String.toList_append, String.toList_append] at hbase
      exact String.toList_inj.1 (List.append_cancel_right hbase)

end Upward

/-! ## The search from any path on the way -/

/-- What a search for a name comes to that goes through these directories in order. -/
structure Ascends (t : FileTree) (here : Location) (start name : String) (dirs : List String) :
    Prop where
  found : ∀ path, nearestFile t here start name = .ok (some path) ↔
    ∃ before dir, Reaches t here name dirs before dir ∧ IsFile t here (join dir name) ∧
      path = join dir name
  refused : ∀ failure, nearestFile t here start name = .error failure ↔
    ∃ before dir, Reaches t here name dirs before dir ∧ IsBarred t here (join dir name) ∧
      failure = .inaccessible (join dir name)
  missing : nearestFile t here start name = .ok none ↔
    ∀ dir ∈ dirs, IsPassed t here (join dir name)
  /-- A directory that is not there is passed over, if its candidate is a path at all. -/
  absent : ¬ isAbsolute name → ∀ dir ∈ dirs, usable (join dir name) →
    t.find here dir = .error .notFound → IsPassed t here (join dir name)
  /-- From the start up to the directory of the file the search comes to the same file. -/
  steady : ∀ before dir after, dirs = before ++ dir :: after →
    nearestFile t here start name = .ok (some (join dir name)) →
      ∀ d ∈ before ++ [dir], nearestFile t here d name = .ok (some (join dir name))
  steady_none : nearestFile t here start name = .ok none →
    ∀ d ∈ dirs, nearestFile t here d name = .ok none

section Ascent

variable {start name full : String}

theorem absoluteIn?_eq_none_iff : absoluteIn? t here start = none ↔
    start = "" ∨ ¬ isAbsolute start ∧ t.get? here ≠ some .directory := by
  rw [absoluteIn?]
  by_cases hempty : start = ""
  · subst hempty
    simp [absolute?]
  · rw [absolute?_eq hempty]
    split_ifs with hstart
    · rw [← not_or]
      simp [hempty, hstart]
    · rw [← not_or]
      simp [hstart]

/-- The absolute form of a path, written out; all that comes after its slashes are steps. -/
theorem spelled_of_absoluteIn? (ht : t.WellFormed) (h : absoluteIn? t here start = some full) :
    full = spelled (isDoubled start) (startOf here start ++ steps start) ∧
      ∀ s ∈ startOf here start ++ steps start, IsStep s := by
  have hne : start ≠ "" := by
    rintro rfl
    have hnone : absoluteIn? t here "" = none := absoluteIn?_eq_none_iff.2 (.inl rfl)
    rw [hnone] at h
    cases h
  rw [absoluteIn?, absolute?_eq hne] at h
  split_ifs at h with hstart
  refine ⟨(Option.some.inj h).symm, List.forall_mem_append.2 ⟨?_, fun s => isStep_of_mem_steps⟩⟩
  rw [startOf]
  split_ifs with habs
  · simp
  · exact isStep_of_directory ht (hstart.resolve_left habs)

theorem ancestors_of_absoluteIn? (ht : t.WellFormed) (h : absoluteIn? t here start = some full) :
    ancestors full = upward (isDoubled start) (startOf here start ++ steps start) := by
  obtain ⟨rfl, hsteps⟩ := spelled_of_absoluteIn? ht h
  exact ancestors_spelled hsteps

/-- A search that starts on the way looks at what is left of it. -/
theorem nearestFile_on_way (ht : t.WellFormed) (h : absoluteIn? t here start = some full)
    {before after : List String} {d : String} (hway : ancestors full = before ++ d :: after)
    (name : String) :
    nearestFile t here d name = firstFile t here ((d :: after).map (join · name)) := by
  have hsteps := (spelled_of_absoluteIn? ht h).2
  have hmem : d ∈ upward (isDoubled start) (startOf here start ++ steps start) := by
    rw [← ancestors_of_absoluteIn? ht h, hway]
    simp
  have habs := isAbsolute_of_mem_upward hmem
  have hself : absoluteIn? t here d = some d := by
    rw [absoluteIn?, if_pos (.inl habs)]
    exact absolute?_of_mem_upward hsteps hmem here
  simp only [nearestFile, hself, ancestors_of_append hway]

/-- As long as nothing is found, a search that starts further up comes to the same. -/
theorem Reaches.nearestFile_eq (ht : t.WellFormed) (h : absoluteIn? t here start = some full)
    {before : List String} {dir d : String} (hreach : Reaches t here name (ancestors full) before dir)
    (hd : d ∈ before ++ [dir]) : nearestFile t here d name = nearestFile t here start name := by
  obtain ⟨⟨after, hway⟩, hpassed⟩ := hreach
  have hsplit : ∃ front rest, ancestors full = front ++ d :: rest ∧
      ∀ q ∈ front, IsPassed t here (join q name) := by
    rcases List.mem_append.1 hd with hd | hd
    · obtain ⟨front, rest, rfl⟩ := List.append_of_mem hd
      refine ⟨front, rest ++ dir :: after, ?_, fun q hq => hpassed q (by simp [hq])⟩
      rw [hway, List.append_assoc, List.cons_append]
    · rw [List.mem_singleton.1 hd]
      exact ⟨before, after, hway, hpassed⟩
  obtain ⟨front, rest, hfront, hall⟩ := hsplit
  have hstart : nearestFile t here start name =
      firstFile t here ((ancestors full).map (join · name)) := by
    simp only [nearestFile, h]
  rw [nearestFile_on_way ht h hfront name, hstart, hfront, firstFile_append hall]

/-- The way passes each directory once. -/
theorem before_unique {before before' after after' : List String} {dir : String}
    (h : ancestors full = before ++ dir :: after) (h' : ancestors full = before' ++ dir :: after') :
    before = before' := by
  have hafter : after = after' :=
    (List.cons.inj ((ancestors_of_append h).symm.trans (ancestors_of_append h'))).2
  rw [h, hafter] at h'
  exact List.append_cancel_right h'

/-- From the start up to the directory of the file, any search comes to this file. -/
theorem nearestFile_steady (ht : t.WellFormed) (h : absoluteIn? t here start = some full)
    {before after : List String} {dir d : String} (hway : ancestors full = before ++ dir :: after)
    (hfound : nearestFile t here start name = .ok (some (join dir name)))
    (hd : d ∈ before ++ [dir]) : nearestFile t here d name = .ok (some (join dir name)) := by
  have hfirst : firstFile t here ((ancestors full).map (join · name)) =
      .ok (some (join dir name)) := by
    simpa only [nearestFile, h] using hfound
  obtain ⟨before', dir', hreach, hfile, heq⟩ := firstFile_eq_some_iff.1 hfirst
  by_cases hname : isAbsolute name
  · -- All candidates are the one path, so the first of them is taken from everywhere.
    have hjoin : ∀ base, join base name = name := fun base => by rw [join, if_pos hname]
    have hmem : d ∈ ancestors full := by
      have hmore : before ++ [dir] ⊆ before ++ dir :: after := by simp
      rw [hway]
      exact hmore hd
    obtain ⟨front, rest, hfront⟩ := List.append_of_mem hmem
    have hfile' : IsFile t here (join d name) := by rwa [hjoin] at hfile ⊢
    rw [nearestFile_on_way ht h hfront name, List.map_cons, firstFile_of_isFile hfile', hjoin, hjoin]
  · obtain ⟨after', hway'⟩ := hreach.split
    have hmem : dir ∈ ancestors full ∧ dir' ∈ ancestors full := by
      constructor
      · rw [hway]
        simp
      · rw [hway']
        simp
    rw [ancestors_of_absoluteIn? ht h] at hmem
    obtain rfl := join_injective (spelled_of_absoluteIn? ht h).2 hname hmem.1 hmem.2 heq
    rw [before_unique hway hway'] at hd
    rw [hreach.nearestFile_eq ht h hd, hfound]

theorem nearestFile_steady_none (ht : t.WellFormed) (h : absoluteIn? t here start = some full)
    (hnone : nearestFile t here start name = .ok none) {d : String} (hd : d ∈ ancestors full) :
    nearestFile t here d name = .ok none := by
  have hall : firstFile t here ((ancestors full).map (join · name)) = .ok none := by
    simpa only [nearestFile, h] using hnone
  rw [firstFile_eq_none_iff] at hall
  obtain ⟨front, rest, hfront⟩ := List.append_of_mem hd
  rw [nearestFile_on_way ht h hfront name, firstFile_eq_none_iff]
  intro q hq
  apply hall q
  rw [hfront]
  exact List.mem_append_right _ hq

theorem ascends_ancestors (ht : t.WellFormed) (h : absoluteIn? t here start = some full) :
    Ascends t here start name (ancestors full) := by
  have hstart : nearestFile t here start name =
      firstFile t here ((ancestors full).map (join · name)) := by
    simp only [nearestFile, h]
  have habs : ∀ dir ∈ ancestors full, isAbsolute dir := by
    rw [ancestors_of_absoluteIn? ht h]
    exact fun dir => isAbsolute_of_mem_upward
  refine ⟨?_, ?_, ?_, ?_, ?_, ?_⟩
  · intro path
    rw [hstart]
    exact firstFile_eq_some_iff
  · intro failure
    rw [hstart]
    exact firstFile_eq_error_iff
  · rw [hstart]
    exact firstFile_eq_none_iff
  · intro hname dir hdir hu hmissing
    refine isPassed_of_missing ?_ hname hu hmissing
    rintro rfl
    exact absurd (habs "" hdir) (by decide)
  · intro before dir after hway hfound d hd
    exact nearestFile_steady ht h hway hfound hd
  · intro hnone d hd
    exact nearestFile_steady_none ht h hnone hd

/-- The search for the nearest file fails at once on a path that has no absolute form: the empty
path, and a relative one where the current directory is gone. Any other way leads over the ancestors
of the absolute form, and what the search comes to is settled by the first of them in which there is
a file or something that cannot be looked at. -/
theorem nearestFile_account (ht : t.WellFormed) (here : Location) (start name : String) :
    (absoluteIn? t here start = none ↔
      start = "" ∨ ¬ isAbsolute start ∧ t.get? here ≠ some .directory) ∧
    (absoluteIn? t here start = none →
      nearestFile t here start name = .error (.inaccessible start)) ∧
    ∀ full, absoluteIn? t here start = some full →
      ancestors full = upward (isDoubled start) (startOf here start ++ steps start) ∧
        Ascends t here start name (ancestors full) := by
  refine ⟨absoluteIn?_eq_none_iff, fun hnone => by simp only [nearestFile, hnone], ?_⟩
  intro full hfull
  exact ⟨ancestors_of_absoluteIn? ht hfull, ascends_ancestors ht hfull⟩

end Ascent

/-- A tree with a directory and a file in it. -/
def sparseTree : FileTree :=
  (FileTree.empty.set ["a"] .directory).set ["a", "types"] (.file [])

theorem sparseTree_wellFormed : sparseTree.WellFormed :=
  wellFormed_of_forall (by decide +kernel) (by decide +kernel)

/-- Neither `b` nor `c` is there. -/
theorem nearestFile_account_sparseTree : sparseTree.WellFormed ∧
    absoluteIn? sparseTree ["a"] "b/.//c/" = some "/a/b/c" ∧
    Ascends sparseTree ["a"] "b/.//c/" "types" ["/a/b/c", "/a/b", "/a", "/"] ∧
    nearestFile sparseTree ["a"] "b/.//c/" "types" = .ok (some "/a/types") ∧
    nearestFile sparseTree ["a"] "/a/b" "types" = .ok (some "/a/types") := by
  have habsolute : absoluteIn? sparseTree ["a"] "b/.//c/" = some "/a/b/c" := by decide
  have hancestors : ancestors "/a/b/c" = ["/a/b/c", "/a/b", "/a", "/"] := by decide
  have haccount := (nearestFile_account sparseTree_wellFormed ["a"] "b/.//c/" "types").2.2
    "/a/b/c" habsolute
  rw [hancestors] at haccount
  have hascends := haccount.2
  have hfound : nearestFile sparseTree ["a"] "b/.//c/" "types" = .ok (some (join "/a" "types")) := by
    decide
  have hsteady := hascends.steady ["/a/b/c", "/a/b"] "/a" ["/"] rfl hfound "/a/b" (by simp)
  exact ⟨sparseTree_wellFormed, habsolute, hascends, hfound, hsteady⟩

end WorkerEnv.Storage
