/-
# WorkerEnv.Proofs.Storage.Making -- making a directory and its parents

Making directories goes up the ladder of parents until one is there, and down again. It adds nothing
but directories, only where the path passes, and only where that is not refused. `Passable` says when
a path can be gone once this is done: no file stands in the way, every name on the way can be that of
an entry, every directory can be searched, and what is missing may be put where it belongs. Then the
making comes to its end; and if it comes to its end, then everything that the path passes is a
directory.
-/

import WorkerEnv.Proofs.Storage.Access
import WorkerEnv.Proofs.Storage.Parents

namespace WorkerEnv.Storage.FileTree

variable {t t' : FileTree} {here start : Location} {path s : String} {before below : List String}

/-! ## What can be passed once its directories are made -/

/-- A list of segments can be passed, once the directories that are missing have been made. -/
structure Passable (t : FileTree) (start : Location) (parts : List String) : Prop where
  no_file : ∀ p ∈ passed start parts, ∀ bytes, t.get? p ≠ some (.file bytes)
  fits : ∀ q ∈ parts, fits q
  opens : t.Opens start parts
  admitted : ∀ p ∈ passed start parts, t.get? p = none → t.admits p

theorem fits_of_leads (ht : t.WellFormed) {parts : List String} (h : t.Leads start parts) :
    ∀ q ∈ parts, fits q := by
  induction parts generalizing start with
  | nil => simp
  | cons q rest ih =>
    have hrest : ∀ next, passed next rest ⊆ passed start (q :: rest) → ∀ r ∈ rest, fits r :=
      fun next hsub => ih fun p hp => h p (hsub hp)
    by_cases h1 : isTrivial q
    · have hq : q = "" ∨ q = "." := by simpa [isTrivial] using h1
      refine List.forall_mem_cons.2 ⟨?_, hrest start ?_⟩
      · rcases hq with rfl | rfl <;> decide
      · rw [passed, if_pos h1]
        exact List.Subset.refl _
    by_cases h2 : q = ".."
    · refine List.forall_mem_cons.2 ⟨?_, hrest start.dropLast ?_⟩
      · rw [h2]
        decide
      · rw [passed, if_neg h1, if_pos h2]
        exact List.subset_cons_self _ _
    have hpassed : passed (start ++ [q]) rest ⊆ passed start (q :: rest) := by
      rw [passed, if_neg h1, if_neg h2]
      exact List.subset_cons_self _ _
    have hdir := h (start ++ [q]) (hpassed (self_mem_passed _ rest))
    exact List.forall_mem_cons.2 ⟨(ht.held hdir (by simp)).2.fits, hrest _ hpassed⟩

theorem passable_of_enters (ht : t.WellFormed) {parts : List String} (h : t.Enters start parts) :
    t.Passable start parts where
  no_file p hp bytes hfile := by
    rw [h.leads p hp] at hfile
    cases hfile
  fits := fits_of_leads ht h.leads
  opens := h.opens
  admitted p hp hmissing := by
    rw [h.leads p hp] at hmissing
    cases hmissing

theorem Passable.of_append {parts more : List String} (h : t.Passable start (parts ++ more)) :
    t.Passable start parts := by
  have hpassed := passed_subset_append start parts more
  constructor
  · intro p hp
    exact h.no_file p (hpassed hp)
  · intro q hq
    exact h.fits q (List.mem_append_left _ hq)
  · intro p hp
    exact h.opens p (hpassed hp)
  · intro p hp
    exact h.admitted p (hpassed hp)

theorem passable_grown {region : List Location} (h : GrownBy region t t') {parts : List String} :
    t'.Passable start parts ↔ t.Passable start parts := by
  constructor
  · rintro ⟨hfile, hfits, hopens, hadmitted⟩
    refine ⟨?_, hfits, (opens_congr h.refusals).1 hopens, ?_⟩
    · simpa only [ne_eq, h.file_iff] using hfile
    · intro p hp hold
      -- What is missing before may be there afterwards, but only because it was admitted.
      cases hnew : t'.get? p with
      | none =>
        rw [← h.admits (by simp [hnew])]
        exact hadmitted p hp hnew
      | some entry => exact (h.fresh hold hnew).2.2
  · rintro ⟨hfile, hfits, hopens, hadmitted⟩
    refine ⟨?_, hfits, (opens_congr h.refusals).2 hopens, ?_⟩
    · simpa only [ne_eq, h.file_iff] using hfile
    · intro p hp hnew
      rw [h.admits (by simp [hnew])]
      refine hadmitted p hp ?_
      cases hold : t.get? p with
      | none => rfl
      | some entry =>
        rw [h.kept hold] at hnew
        cases hnew

theorem not_passable_of_obstacle {parts : List String} {fault : Fault}
    (h : t.Obstacle start parts fault) (hne : fault ≠ .notFound) : ¬ t.Passable start parts := by
  intro hpass
  cases fault with
  | notFound => exact hne rfl
  | notDirectory =>
    obtain ⟨p, hp, bytes, hfile⟩ := h
    exact hpass.no_file p hp bytes hfile
  | unusable =>
    obtain ⟨q, hq, hfits⟩ := h
    exact hfits (hpass.fits q hq)
  | refused =>
    obtain ⟨p, hp, hshut⟩ := h
    rw [hpass.opens p hp] at hshut
    cases hshut
  | isDirectory => exact h
  | alreadyThere => exact h

theorem leads_concat : t.Leads start (below ++ [s]) ↔
    t.Leads start below ∧ t.get? (landing start (below ++ [s])) = some .directory := by
  constructor
  · intro h
    refine ⟨?_, h.at_landing⟩
    intro p hp
    exact h p (passed_subset_append _ _ _ hp)
  · rintro ⟨hbelow, hland⟩ p hp
    rcases mem_passed_concat.1 hp with hp | rfl
    · exact hbelow p hp
    · exact hland

/-! ## Making one directory -/

/-- What making one directory does, for a path that ends in a step. -/
theorem makeDirectory_concat (ht : t.WellFormed)
    (hstart : t.get? (startOf here path) = some .directory) (hseg : segments path = before ++ [s])
    (hs : IsStep s) (hne : path ≠ "") (hu : usable path) :
    t.makeDirectory here path =
      match t.enter (startOf here path) (before.filter (!isTrivial ·)) with
      | .error fault => .error fault
      | .ok place =>
        if s = ".." then .error .alreadyThere
        else if fits s then
          match t.get? (place ++ [s]) with
          | some _ => .error .alreadyThere
          | none =>
            if t.admits (place ++ [s]) then .ok (t.set (place ++ [s]) .directory)
            else .error .refused
        else .error .unusable := by
  have hslash := no_slash_of_segments hseg
  -- The last segment is a step, so there are no slashes at the end to be passed over.
  have hparts : (((before ++ [s]).reverse.dropWhile (· == "")).reverse) = before ++ [s] := by
    rw [List.reverse_append, List.reverse_singleton, List.singleton_append,
      List.dropWhile_cons_of_neg (by simp [hs.ne_empty])]
    simp
  rw [makeDirectory, route_of_usable hne hu, hseg, enter_filter]
  simp only [bind, Except.bind, hparts]
  rw [if_neg (by simp)]
  cases he : t.enter (startOf here path) before with
  | error fault => rw [site_concat_of_enter_error ht hstart hslash he]
  | ok place =>
    rw [site_concat_of_enter hs he]
    split_ifs
    · rfl
    · cases t.get? (place ++ [s]) <;> rfl
    · rfl

/-- A path without steps is never missing. -/
theorem makeDirectory_ground (ht : t.WellFormed)
    (hstart : t.get? (startOf here path) = some .directory) (hsteps : steps path = [])
    (hne : path ≠ "") (hu : usable path) :
    ∃ fault, t.makeDirectory here path = .error fault ∧ fault ≠ .notFound := by
  have htrivial : ∀ q ∈ segments path, isTrivial q := by
    simpa [steps] using hsteps
  rw [makeDirectory, route_of_usable hne hu]
  simp only [bind, Except.bind]
  -- Without the slashes at the end what is left still says nothing and leads nowhere else.
  cases List.eq_nil_or_concat ((segments path).reverse.dropWhile (· == "")).reverse with
  | inl hnil => exact ⟨.alreadyThere, by rw [if_pos hnil], by simp⟩
  | inr hconcat =>
    obtain ⟨front, q, hparts⟩ := hconcat
    rw [List.concat_eq_append] at hparts
    have hmem : ∀ r ∈ front ++ [q], r ∈ segments path := by
      intro r hr
      rw [← hparts, List.mem_reverse] at hr
      exact List.mem_reverse.1 ((List.dropWhile_sublist _).subset hr)
    have hfront : front.filter (!isTrivial ·) = [] := by
      rw [List.filter_eq_nil_iff]
      intro r hr
      simp [htrivial r (hmem r (by simp [hr]))]
    have hslash : ∀ r ∈ front, '/' ∉ r.toList :=
      fun r hr => no_slash_of_mem_segments (hmem r (by simp [hr]))
    rw [hparts, if_neg (by simp)]
    by_cases hshut : t.refuses (startOf here path) .search
    · have henter := enter_of_shut hstart hshut front
      exact ⟨.refused, by rw [site_concat_of_enter_error ht hstart hslash henter], by simp⟩
    · have henter : t.enter (startOf here path) front = .ok (startOf here path) := by
        rw [← enter_filter, hfront, enter_nil hstart (Bool.eq_false_iff.2 hshut)]
      obtain ⟨hw, hget, hopen⟩ := walk_of_enter henter
      have hsite : t.site (startOf here path) (front ++ [q]) = .error .alreadyThere := by
        simp [site, hw, hget, hopen, htrivial q (hmem q (by simp)), bind, Except.bind]
      exact ⟨.alreadyThere, by rw [hsite], by simp⟩

/-- A path without steps leads to where it starts. -/
theorem isDirectory_ground (hstart : t.get? (startOf here path) = some .directory)
    (hopen : t.refuses (startOf here path) .search = false) (hsteps : steps path = [])
    (hne : path ≠ "") (hu : usable path) : t.isDirectory here path := by
  have henter : t.enter (startOf here path) (segments path) = .ok (startOf here path) := by
    rw [← enter_filter]
    change t.enter _ (steps path) = _
    rw [hsteps, enter_nil hstart hopen]
  have hwalk := (walk_of_enter henter).1
  rw [isDirectory, find, resolve_of_usable hne hu, hwalk]
  simp [hstart, bind, Except.bind, pure, Except.pure]

/-- What making sure of one directory does, for a path that ends in a step. -/
theorem ensureDirectory_concat (ht : t.WellFormed)
    (hstart : t.get? (startOf here path) = some .directory) (hseg : segments path = before ++ [s])
    (hs : IsStep s) (hne : path ≠ "") (hu : usable path) :
    t.ensureDirectory here path =
      match t.enter (startOf here path) (before.filter (!isTrivial ·)) with
      | .error fault => ⟨t, some fault⟩
      | .ok place =>
        if s = ".." then ⟨t, none⟩
        else if fits s then
          match t.get? (place ++ [s]) with
          | some .directory => ⟨t, none⟩
          | some _ => ⟨t, some .alreadyThere⟩
          | none =>
            if t.admits (place ++ [s]) then ⟨t.set (place ++ [s]) .directory, none⟩
            else ⟨t, some .refused⟩
        else ⟨t, some .unusable⟩ := by
  rw [ensureDirectory, makeDirectory_concat ht hstart hseg hs hne hu,
    isDirectory_concat ht hstart hseg hs hne hu]
  cases t.enter (startOf here path) (before.filter (!isTrivial ·)) with
  | error fault => simp
  | ok place =>
    by_cases hp : s = ".."
    · simp [hp]
    by_cases hf : fits s
    · cases hget : t.get? (place ++ [s]) with
      | none =>
        by_cases hadmits : t.admits (place ++ [s])
        · simp [hp, hf, hget, hadmits]
        · simp [hp, hf, hget, hadmits]
      | some entry => cases entry <;> simp [hp, hf, hget]
    · have hnot : t.get? (place ++ [s]) ≠ some .directory := by
        intro hdir
        exact hf (ht.held hdir (by simp)).2.fits
      simp [hp, hf, hnot]

/-! ## Making what is missing -/

/-- What making the directories that a list of segments passes comes to. -/
structure Made (t : FileTree) (start : Location) (parts : List String) (made : Outcome) :
    Prop where
  wellFormed : made.tree.WellFormed
  grown : GrownBy (passed start parts) t made.tree
  leads : made.fault? = none → made.tree.Leads start parts
  done : t.Passable start parts → made.fault? = none

/-- Once the directories are made, what is a directory was one before or is passed. -/
theorem Made.directory_iff {parts : List String} {made : Outcome} (h : Made t start parts made)
    (hdone : made.fault? = none) {p : Location} :
    made.tree.get? p = some .directory ↔
      t.get? p = some .directory ∨ p ∈ passed start parts := by
  constructor
  · intro hdir
    cases hold : t.get? p with
    | none => exact Or.inr (h.grown.fresh hold hdir).2.1
    | some entry =>
      have hkept := h.grown.kept hold
      rw [hdir] at hkept
      exact Or.inl (by rw [Option.some.inj hkept])
  · rintro (hold | hpassed)
    · exact h.grown.kept hold
    · exact h.leads hdone p hpassed

/-- Where the directories are open they can be entered once they are made. -/
theorem Made.enters {parts : List String} {made : Outcome} (h : Made t start parts made)
    (hdone : made.fault? = none) (hopens : t.Opens start parts) : made.tree.Enters start parts :=
  ⟨h.leads hdone, (opens_congr h.grown.refusals).2 hopens⟩

/-- Directories that were made, and are open, could be passed. -/
theorem Made.passable {parts : List String} {made : Outcome} (h : Made t start parts made)
    (hdone : made.fault? = none) (hopens : t.Opens start parts) : t.Passable start parts :=
  (passable_grown h.grown).1 (passable_of_enters h.wellFormed (h.enters hdone hopens))

theorem made_of_leads (ht : t.WellFormed) {parts : List String} (h : t.Leads start parts) :
    Made t start parts ⟨t, none⟩ :=
  ⟨ht, .refl _ t, fun _ => h, fun _ => rfl⟩

theorem made_of_not_passable (ht : t.WellFormed) {parts : List String}
    (h : ¬ t.Passable start parts) (fault : Fault) : Made t start parts ⟨t, some fault⟩ where
  wellFormed := ht
  grown := .refl _ t
  leads hnone := by cases hnone
  done hpass := absurd hpass h

/-- A new directory is all that was missing. -/
theorem made_set (ht : t.WellFormed) (hs : IsName s) (hleads : t.Leads start below)
    (hnone : t.get? (landing start below ++ [s]) = none)
    (hadmits : t.admits (landing start below ++ [s])) :
    Made t start (below ++ [s]) ⟨t.set (landing start below ++ [s]) .directory, none⟩ := by
  have hland := landing_concat hs.toIsStep hs.not_parent start below
  have hgrown : GrownBy (passed start (below ++ [s])) t
      (t.set (landing start below ++ [s]) .directory) := by
    refine grownBy_set_directory hnone ?_ hadmits
    rw [← hland]
    exact landing_mem_passed _ _
  have hwf : (t.set (landing start below ++ [s]) .directory).WellFormed :=
    ht.set hleads.at_landing hs (by simp [hnone]) (by simp)
  refine ⟨hwf, hgrown, fun _ => leads_concat.2 ⟨hleads.grown hgrown, ?_⟩, fun _ => rfl⟩
  rw [hland, get?_set (by simp), if_pos rfl]

/-- Making one directory in a directory that is there. -/
theorem made_ensureDirectory (ht : t.WellFormed) (hseg : segments path = before ++ [s])
    (hs : IsStep s) (hu : usable path)
    (hleads : t.Leads (startOf here path) (before.filter (!isTrivial ·))) :
    Made t (startOf here path) (steps path) (t.ensureDirectory here path) := by
  have hensure := ensureDirectory_concat ht hleads.self hseg hs (ne_empty_of_segments hseg hs) hu
  have hslash : ∀ q ∈ before.filter (!isTrivial ·), '/' ∉ q.toList :=
    fun q hq => no_slash_of_segments hseg q (List.mem_filter.1 hq).1
  rw [hensure, steps_of_segments hseg hs]
  set start := startOf here path
  set below := before.filter (!isTrivial ·)
  rcases enter_cases ht hleads.self hslash with ⟨-, he⟩ | ⟨fault, hobs, he⟩
  · rw [he]
    dsimp only
    have hland : s ≠ ".." → landing start (below ++ [s]) = landing start below ++ [s] :=
      fun hp => landing_concat hs hp start below
    -- Two dots are a directory that is there; any other step is one, is in the way, or can be made.
    by_cases hp : s = ".."
    · rw [if_pos hp]
      refine made_of_leads ht (leads_concat.2 ⟨hleads, ?_⟩)
      rw [hp, landing_concat_parent]
      exact ht.directory_dropLast hleads.at_landing
    rw [if_neg hp]
    by_cases hf : fits s
    · rw [if_pos hf]
      cases hget : t.get? (landing start below ++ [s]) with
      | none =>
        dsimp only
        split_ifs with hadmits
        · exact made_set ht ⟨hs, hp, hf⟩ hleads hget hadmits
        · refine made_of_not_passable ht (fun hpass => hadmits ?_) _
          rw [← hland hp] at hget ⊢
          exact hpass.admitted _ (landing_mem_passed _ _) hget
      | some entry =>
        cases entry with
        | directory => exact made_of_leads ht (leads_concat.2 ⟨hleads, by rwa [hland hp]⟩)
        | file bytes =>
          refine made_of_not_passable ht (fun hpass => ?_) _
          rw [← hland hp] at hget
          exact hpass.no_file _ (landing_mem_passed _ _) bytes hget
        | removed => exact absurd hget (ht.ne_removed hs.no_slash)
    · rw [if_neg hf]
      exact made_of_not_passable ht (fun hpass => hf (hpass.fits s (by simp))) _
  · -- What is there can only be out of reach because it is not open.
    rw [he]
    refine made_of_not_passable ht (fun hpass => ?_) fault
    have hopen := passable_of_enters ht ⟨hleads, hpass.of_append.opens⟩
    refine not_passable_of_obstacle hobs ?_ hopen
    rintro rfl
    obtain ⟨p, hp, hmissing⟩ := hobs
    rw [hleads p hp] at hmissing
    cases hmissing

/-! ## Making a directory and its parents -/

/-- Making the parents and then the directory itself. -/
theorem Made.trans {first last : Outcome} (hfirst : Made t start below first)
    (hlast : Made first.tree start (below ++ [s]) last) : Made t start (below ++ [s]) last := by
  have hgrown : GrownBy (passed start (below ++ [s])) t first.tree :=
    hfirst.grown.mono (passed_subset_append _ _ _)
  exact ⟨hlast.wellFormed, hgrown.trans hlast.grown, hlast.leads,
    fun hpass => hlast.done ((passable_grown hgrown).2 hpass)⟩

/-- Where the parents cannot be made, nothing further is. -/
theorem Made.stopped {first : Outcome} (hfirst : Made t start below first)
    (hfault : first.fault? ≠ none) : Made t start (below ++ [s]) first := by
  refine ⟨hfirst.wellFormed, hfirst.grown.mono (passed_subset_append _ _ _), ?_, ?_⟩
  · intro hnone
    exact absurd hnone hfault
  · intro hpass
    exact hfirst.done hpass.of_append

/-- A path without steps is not made, and neither is anything above it. -/
theorem makeFirst_ground (ht : t.WellFormed)
    (hstart : t.get? (startOf here path) = some .directory) (hsteps : steps path = [])
    (hne : path ≠ "") (hu : usable path) (above : List String) :
    ∃ fault, t.makeFirst here (path :: above) =
      ⟨t, if t.isDirectory here path then none else some fault⟩ := by
  obtain ⟨fault, hmake, hfound⟩ := makeDirectory_ground ht hstart hsteps hne hu
  refine ⟨fault, ?_⟩
  rw [makeFirst, if_neg hne, hmake]
  cases fault with
  | notFound => exact absurd rfl hfound
  | _ => rw [ensureDirectory, hmake]

/-- Nothing is made where everything is there. -/
theorem makeFirst_of_enters (ht : t.WellFormed) {fromRoot : Bool} {parts paths : List String}
    (hladder : Ladder fromRoot parts paths) (hu : ∀ path ∈ paths, path = "" ∨ usable path)
    (henters : t.Enters (if fromRoot then [] else here) parts) :
    t.makeFirst here paths = ⟨t, none⟩ := by
  cases hladder with
  | @ground path above hsteps habs =>
    by_cases hne : path = ""
    · rw [makeFirst, if_pos hne]
    · have hup := (hu path (by simp)).resolve_left hne
      have hroot : startOf here path = if fromRoot then [] else here := by rw [startOf, habs]
      rw [← hroot] at henters
      obtain ⟨hleads, hopens⟩ := henters
      obtain ⟨fault, hfirst⟩ := makeFirst_ground ht hleads.self hsteps hne hup above
      have hdir := isDirectory_ground hleads.self (hopens _ (self_mem_passed _ _)) hsteps hne hup
      rw [hfirst, if_pos hdir]
  | @rung path s below before above hseg hbelow hs habs hladder' =>
    have hne := ne_empty_of_segments hseg hs
    have hup := (hu path (by simp)).resolve_left hne
    have hroot : startOf here path = if fromRoot then [] else here := by rw [startOf, habs]
    rw [← hroot] at henters
    subst hbelow
    obtain ⟨hleads, hopens⟩ := henters
    obtain ⟨hbelow, hland⟩ := leads_concat.1 hleads
    have henter := enter_of_enters ht
      ⟨hbelow, fun p hp => hopens p (passed_subset_append _ _ _ hp)⟩
    have hfits := fits_of_leads ht hleads s (by simp)
    have hmake := makeDirectory_concat ht hleads.self hseg hs hne hup
    have hensure := ensureDirectory_concat ht hleads.self hseg hs hne hup
    rw [henter] at hmake hensure
    dsimp only at hmake hensure
    by_cases hp : s = ".."
    · rw [if_pos hp] at hmake hensure
      rw [makeFirst, if_neg hne, hmake, hensure]
    · rw [landing_concat hs hp] at hland
      rw [if_neg hp, if_pos hfits, hland] at hmake hensure
      rw [makeFirst, if_neg hne, hmake, hensure]

/-- Making the first of several paths that form a ladder. The induction is on the ladder, from the
ground up: each path needs what was made for the paths above it. -/
theorem made_makeFirst (ht : t.WellFormed) {fromRoot : Bool} {parts paths : List String}
    (hladder : Ladder fromRoot parts paths) (hu : ∀ path ∈ paths, path = "" ∨ usable path)
    (hstart : t.get? (if fromRoot then [] else here) = some .directory) :
    Made t (if fromRoot then [] else here) parts (t.makeFirst here paths) := by
  induction hladder with
  | @ground path above hsteps habs =>
    have hself : t.Leads (if fromRoot then [] else here) [] := by
      simpa [Leads, passed] using hstart
    by_cases hne : path = ""
    · rw [makeFirst, if_pos hne]
      exact made_of_leads ht hself
    · have hup := (hu path (by simp)).resolve_left hne
      have hroot : startOf here path = if fromRoot then [] else here := by rw [startOf, habs]
      rw [← hroot] at hstart hself ⊢
      obtain ⟨fault, hfirst⟩ := makeFirst_ground ht hstart hsteps hne hup above
      rw [hfirst]
      refine ⟨ht, .refl _ t, fun _ => hself, fun hpass => ?_⟩
      exact if_pos (isDirectory_ground hstart (hpass.opens _ (self_mem_passed _ _)) hsteps hne hup)
  | @rung path s below before above hseg hbelow hs habs hladder' ih =>
    have hne := ne_empty_of_segments hseg hs
    have hup := (hu path (by simp)).resolve_left hne
    have hroot : startOf here path = if fromRoot then [] else here := by rw [startOf, habs]
    have hfirst := ih fun p hp => hu p (by simp [hp])
    have hslash : ∀ q ∈ below, '/' ∉ q.toList := by
      intro q hq
      rw [← hbelow] at hq
      exact no_slash_of_segments hseg q (List.mem_filter.1 hq).1
    have hsteps := steps_of_segments hseg hs
    have hmake := makeDirectory_concat ht (hroot ▸ hstart) hseg hs hne hup
    have hensure := ensureDirectory_concat ht (hroot ▸ hstart) hseg hs hne hup
    rw [← hroot] at hstart hfirst ⊢
    rw [hbelow] at hsteps hmake hensure
    rw [makeFirst, if_neg hne]
    rcases enter_cases ht hstart hslash with ⟨henters, he⟩ | ⟨fault, hobs, he⟩
    · -- The parents are there, so the directory itself is not refused for want of them.
      have hmade := made_ensureDirectory ht hseg hs hup (hbelow ▸ henters.leads)
      rw [hsteps] at hmade
      have hfound : t.makeDirectory here path ≠ .error .notFound := by
        rw [hmake, he]
        dsimp only
        generalize t.get? (landing (startOf here path) below ++ [s]) = entry?
        cases entry? <;> dsimp only <;> split_ifs <;> simp
      split
      · next h => exact absurd h hfound
      · exact hmade
    rw [he] at hmake hensure
    dsimp only at hmake hensure
    rw [hmake]
    by_cases hmissing : fault = .notFound
    · -- Something is missing: the parents are made first.
      subst hmissing
      rcases hmakeFirst : t.makeFirst here above with ⟨t', fault?⟩
      rw [hmakeFirst] at hfirst
      cases fault? with
      | none =>
        have hlast := made_ensureDirectory hfirst.wellFormed hseg hs hup (hbelow ▸ hfirst.leads rfl)
        rw [hsteps] at hlast
        exact hfirst.trans hlast
      | some fault => exact hfirst.stopped (by simp)
    · -- Something is in the way, which making directories does not change.
      have hnot : ¬ t.Passable (startOf here path) (below ++ [s]) := by
        intro hpass
        exact not_passable_of_obstacle hobs hmissing hpass.of_append
      have hensured := made_of_not_passable ht hnot fault
      rw [← hensure] at hensured
      cases fault with
      | notFound => exact absurd rfl hmissing
      | _ => exact hensured

end WorkerEnv.Storage.FileTree
