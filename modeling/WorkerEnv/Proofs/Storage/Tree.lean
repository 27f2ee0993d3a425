/-
# WorkerEnv.Proofs.Storage.Tree -- well-formed file trees and how they grow

In a well-formed tree every file and every directory lies in a directory and has a name that a path
can spell, a directory that was taken away has a name that no path can spell, and nothing is refused
where nothing is. Putting an entry into a directory keeps this, and so does taking a location away.
`GrownBy` is the relation between a tree and a later one to which nothing but directories has been
added, where that was not refused.
-/

import WorkerEnv.Proofs.Storage.Segments
import WorkerEnv.Storage.FileTree

namespace WorkerEnv.Storage

/-- A text that names an entry: one step of a path, not the one to the parent, and not too long. -/
structure IsName (s : String) : Prop extends IsStep s where
  not_parent : s ≠ ".."
  fits : fits s

namespace FileTree

/-! ## Looking up what was put -/

@[simp]
theorem get?_root (t : FileTree) : t.get? [] = some .directory := rfl

theorem get?_of_ne_nil (t : FileTree) {place : Location} (h : place ≠ []) :
    t.get? place = t.entries.lookup place := by
  cases place with
  | nil => exact absurd rfl h
  | cons s rest => rfl

theorem lookup_map_replace (entries : List (Location × Entry)) (place q : Location)
    (entry : Entry) :
    (entries.map fun e => if e.1 = place then (place, entry) else e).lookup q =
      if q = place then (entries.lookup place).map fun _ => entry else entries.lookup q := by
  induction entries with
  | nil => simp
  | cons e rest ih =>
    obtain ⟨at', held⟩ := e
    by_cases hp : at' = place <;> by_cases hq : q = at' <;> grind

theorem get?_set {place : Location} (hne : place ≠ []) (t : FileTree) (entry : Entry)
    (q : Location) :
    (t.set place entry).get? q = if q = place then some entry else t.get? q := by
  by_cases hq : q = []
  · subst hq
    simp [Ne.symm hne]
  rw [get?_of_ne_nil _ hq, get?_of_ne_nil _ hq]
  simp only [set]
  split
  · next h =>
    obtain ⟨old, hold⟩ := Option.isSome_iff_exists.1 h
    rw [lookup_map_replace, hold]
    rfl
  · next h =>
    have hnone : t.entries.lookup place = none := Option.not_isSome_iff_eq_none.1 h
    rw [List.lookup_append]
    by_cases hqp : q = place
    · subst hqp
      simp [hnone]
    · simp [hqp, List.lookup_cons, beq_eq_false_iff_ne.2 hqp]

/-- Of two entries put at one location the second stays. -/
@[simp]
theorem set_set (t : FileTree) (place : Location) (entry entry' : Entry) :
    (t.set place entry).set place entry' = t.set place entry' := by
  simp only [set]
  -- The second entry finds the first in its place, whether or not there was one before.
  split
  · next h =>
    obtain ⟨old, hold⟩ := Option.isSome_iff_exists.1 h
    rw [lookup_map_replace, if_pos rfl, hold]
    simp only [Option.map_some, Option.isSome_some, if_true, List.map_map]
    congr 1
    refine List.map_congr_left fun e _ => ?_
    by_cases he : e.1 = place <;> simp [he]
  · next h =>
    have hnone : t.entries.lookup place = none := Option.not_isSome_iff_eq_none.1 h
    have hfound : ((t.entries ++ [(place, entry)]).lookup place).isSome := by
      simp [List.lookup_append, hnone]
    rw [if_pos hfound, List.map_append]
    congr 2
    · refine (List.map_congr_left fun e he => ?_).trans (List.map_id _)
      have hne : place ≠ e.1 := by simpa using List.lookup_eq_none_iff.1 hnone e he
      rw [if_neg (Ne.symm hne)]
      rfl
    · simp

/-! ## Access -/

@[simp]
theorem refuses_empty (place : Location) (access : Access) : empty.refuses place access = false := rfl

@[simp]
theorem refusals_set (t : FileTree) (place : Location) (entry : Entry) :
    (t.set place entry).refusals = t.refusals := by
  rw [set]
  split <;> rfl

theorem refuses_congr {t t' : FileTree} (h : t'.refusals = t.refusals) (place : Location)
    (access : Access) : t'.refuses place access = t.refuses place access := by
  rw [refuses, h, refuses]

@[simp]
theorem refuses_set (t : FileTree) (place q : Location) (entry : Entry) (access : Access) :
    (t.set place entry).refuses q access = t.refuses q access :=
  refuses_congr (refusals_set t place entry) q access

@[simp]
theorem get?_refuse (t : FileTree) (place q : Location) (access : Access) :
    (t.refuse place access).get? q = t.get? q := by
  cases q <;> rfl

theorem refuses_refuse {t : FileTree} {place q : Location} {access access' : Access} :
    (t.refuse place access).refuses q access' ↔
      (q = place ∧ access' = access) ∨ t.refuses q access' := by
  simp [refuses, refuse]

/-- Where something is, that decides whether something else can be put in its place. -/
theorem admits_of_get? {t : FileTree} {place : Location} {entry : Entry}
    (h : t.get? place = some entry) : t.admits place = !t.refuses place .write := by
  simp [admits, keeper, h]

/-! ## Well-formed trees -/

/-- What a file system keeps: an entry lies in a directory and has a name, a directory that was taken
away lies where no path leads, and what is not there refuses nothing. -/
structure WellFormed (t : FileTree) : Prop where
  held {place : Location} {name : String} {entry : Entry} :
    t.get? (place ++ [name]) = some entry → entry ≠ .removed →
      t.get? place = some .directory ∧ IsName name
  unspelled {place : Location} {name : String} :
    t.get? (place ++ [name]) = some .removed → '/' ∈ name.toList
  refuses_there {place : Location} {access : Access} :
    t.refuses place access → (t.get? place).isSome

theorem wellFormed_empty : WellFormed empty := by
  constructor
  · intro place name entry h
    simp [get?_of_ne_nil, empty] at h
  · intro place name h
    simp [get?_of_ne_nil, empty] at h
  · intro place access h
    simp at h

variable {t t' t'' : FileTree} {place : Location} {name : String}

instance (s : String) : Decidable (IsName s) :=
  decidable_of_iff ('/' ∉ s.toList ∧ isTrivial s = false ∧ s ≠ ".." ∧ Storage.fits s)
    ⟨fun ⟨h1, h2, h3, h4⟩ => ⟨⟨h1, by simp [h2]⟩, h3, h4⟩,
      fun h => ⟨h.no_slash, Bool.eq_false_iff.2 h.not_trivial, h.not_parent, h.fits⟩⟩

/-- A tree from which nothing was taken away is checked entry by entry. -/
theorem wellFormed_of_forall
    (hentries : ∀ e ∈ t.entries,
      e.2 ≠ .removed ∧ t.get? e.1.dropLast = some .directory ∧ IsName (e.1.getLastD ""))
    (hrefusals : ∀ r ∈ t.refusals, (t.get? r.1).isSome) : t.WellFormed := by
  have hmem : ∀ {place : Location} {name : String} {entry : Entry},
      t.get? (place ++ [name]) = some entry → (place ++ [name], entry) ∈ t.entries := by
    intro place name entry h
    rw [get?_of_ne_nil t (by simp)] at h
    obtain ⟨before, after, heq, -⟩ := List.lookup_eq_some_iff.1 h
    simp [heq]
  constructor
  · intro place name entry h hentry
    obtain ⟨-, habove, hname⟩ := hentries _ (hmem h)
    exact ⟨by simpa using habove, by simpa using hname⟩
  · intro place name h
    exact absurd rfl (hentries _ (hmem h)).1
  · intro place access h
    exact hrefusals (place, access) (by simpa [refuses] using h)

theorem WellFormed.directory_dropLast (ht : t.WellFormed) (h : t.get? place = some .directory) :
    t.get? place.dropLast = some .directory := by
  cases List.eq_nil_or_concat place with
  | inl hnil => simp [hnil]
  | inr hcons =>
    obtain ⟨above, name, rfl⟩ := hcons
    rw [List.concat_eq_append] at h ⊢
    rw [List.dropLast_concat]
    exact (ht.held h (by simp)).1

theorem WellFormed.directory_of_append (ht : t.WellFormed) {below : Location}
    (h : t.get? (place ++ below) = some .directory) : t.get? place = some .directory := by
  induction below using List.reverseRecOn with
  | nil => rwa [List.append_nil] at h
  | append_singleton rest name ih =>
    rw [← List.append_assoc] at h
    exact ih (ht.held h (by simp)).1

/-- The names on the way to a directory are all names of entries. -/
theorem WellFormed.isName_of_mem (ht : t.WellFormed) (h : t.get? place = some .directory) :
    ∀ s ∈ place, IsName s := by
  induction place using List.reverseRecOn with
  | nil => simp
  | append_singleton above name ih =>
    obtain ⟨habove, hname⟩ := ht.held h (by simp)
    intro s hs
    rcases List.mem_append.1 hs with hs | hs
    · exact ih habove s hs
    · rwa [List.mem_singleton.1 hs]

/-- A name that a path can spell is never that of a directory that was taken away. -/
theorem WellFormed.ne_removed (ht : t.WellFormed) (hname : '/' ∉ name.toList) :
    t.get? (place ++ [name]) ≠ some .removed :=
  fun h => hname (ht.unspelled h)

theorem WellFormed.refuses_of_missing (ht : t.WellFormed) (h : t.get? place = none)
    (access : Access) : t.refuses place access = false := by
  rw [Bool.eq_false_iff]
  intro hrefuses
  have hthere := ht.refuses_there hrefuses
  rw [h] at hthere
  cases hthere

/-- Where something can be put, what is there then refuses nothing to a writer. -/
theorem WellFormed.refuses_of_admits (ht : t.WellFormed) (h : t.admits place) :
    t.refuses place .write = false := by
  cases hget : t.get? place with
  | none => exact ht.refuses_of_missing hget .write
  | some entry => simpa [admits_of_get? hget] using h

/-- A right can be taken at a location where something is. -/
theorem WellFormed.refuse (ht : t.WellFormed) (hplace : (t.get? place).isSome) (access : Access) :
    (t.refuse place access).WellFormed := by
  constructor
  · intro p s entry h hentry
    rw [get?_refuse] at h ⊢
    exact ht.held h hentry
  · intro p s h
    rw [get?_refuse] at h
    exact ht.unspelled h
  · intro p access' h
    rw [get?_refuse]
    rcases refuses_refuse.1 h with ⟨rfl, -⟩ | h
    · exact hplace
    · exact ht.refuses_there h

/-- What is there stays there when something is put into the tree. -/
theorem isSome_get?_set (hne : place ≠ []) {entry : Entry} {q : Location}
    (h : (t.get? q).isSome) : ((t.set place entry).get? q).isSome := by
  rw [get?_set hne]
  split_ifs
  · rfl
  · exact h

/-- A tree stays well-formed when a file or a directory is put into a directory, unless it takes the
place of a directory. -/
theorem WellFormed.set (ht : t.WellFormed) (hplace : t.get? place = some .directory)
    (hname : IsName name) (hold : t.get? (place ++ [name]) ≠ some .directory) {entry : Entry}
    (hentry : entry ≠ .removed) : (t.set (place ++ [name]) entry).WellFormed := by
  have hne : place ++ [name] ≠ [] := by simp
  have hget := get?_set hne t entry
  constructor
  · intro p s e h he
    rw [hget] at h
    split at h
    · next hp =>
      obtain ⟨rfl, hs⟩ := List.append_inj' hp rfl
      cases hs
      refine ⟨?_, hname⟩
      rw [hget, if_neg (by simp)]
      exact hplace
    · obtain ⟨hp, hs⟩ := ht.held h he
      refine ⟨?_, hs⟩
      have hne : p ≠ place ++ [name] := by
        rintro rfl
        exact hold hp
      rw [hget, if_neg hne]
      exact hp
  · intro p s h
    rw [hget] at h
    split at h
    · exact absurd (Option.some.inj h) hentry
    · exact ht.unspelled h
  · intro p access h
    rw [refuses_set] at h
    exact isSome_get?_set hne (ht.refuses_there h)

/-! ## Taking away -/

theorem lookup_filter (entries : List (Location × Entry)) (keep : Location → Bool) (p : Location) :
    (entries.filter fun e => keep e.1).lookup p = if keep p then entries.lookup p else none := by
  induction entries with
  | nil => simp
  | cons e rest ih =>
    by_cases he : p = e.1
    · by_cases hkeep : keep p
      · rw [List.filter_cons_of_pos (he ▸ hkeep), if_pos hkeep, List.lookup_cons, List.lookup_cons]
        simp [he]
      · rw [List.filter_cons_of_neg (he ▸ hkeep), ih, if_neg hkeep, if_neg hkeep]
    · have hne : (p == e.1) = false := beq_eq_false_iff_ne.2 he
      rw [List.filter_cons, List.lookup_cons, hne]
      split
      · rw [List.lookup_cons, hne]
        exact ih
      · exact ih

theorem get?_remove (t : FileTree) (place : Location) {p : Location} (hp : p ≠ []) :
    (t.remove place).get? p = if place <+: p then none else t.get? p := by
  rw [get?_of_ne_nil _ hp, get?_of_ne_nil _ hp, FileTree.remove,
    lookup_filter t.entries fun q => !place.isPrefixOf q]
  by_cases hpre : place <+: p
  · simp [hpre, List.isPrefixOf_iff_prefix.2 hpre]
  · have hnot : place.isPrefixOf p = false := by
      rw [Bool.eq_false_iff, ne_eq, List.isPrefixOf_iff_prefix]
      exact hpre
    simp [hpre, hnot]

theorem refuses_remove (t : FileTree) (place p : Location) (access : Access) :
    (t.remove place).refuses p access ↔ t.refuses p access ∧ ¬ place <+: p := by
  simp [refuses, remove, Bool.eq_false_iff, List.isPrefixOf_iff_prefix]

/-- Nothing is left hanging when a location is taken away with everything below it. -/
theorem WellFormed.remove (ht : t.WellFormed) (place : Location) : (t.remove place).WellFormed := by
  constructor
  · intro p s entry h hentry
    rw [get?_remove t place (by simp)] at h
    split at h
    · cases h
    · next hpre =>
      obtain ⟨hp, hs⟩ := ht.held h hentry
      refine ⟨?_, hs⟩
      by_cases hnil : p = []
      · rw [hnil, get?_root]
      · rw [get?_remove t place hnil, if_neg]
        · exact hp
        · intro habove
          exact hpre (habove.trans (List.prefix_append p [s]))
  · intro p s h
    rw [get?_remove t place (by simp)] at h
    split at h
    · cases h
    · exact ht.unspelled h
  · intro p access h
    obtain ⟨hrefuses, hpre⟩ := (refuses_remove t place p access).1 h
    by_cases hnil : p = []
    · rw [hnil, get?_root]
      rfl
    · rw [get?_remove t place hnil, if_neg hpre]
      exact ht.refuses_there hrefuses

theorem WellFormed.set_removed (ht : t.WellFormed) (hname : '/' ∈ name.toList) :
    (t.set (place ++ [name]) .removed).WellFormed := by
  have hne : place ++ [name] ≠ [] := by simp
  have hget := get?_set hne t .removed
  have hold : t.get? (place ++ [name]) ≠ some .directory := by
    intro hdir
    exact (ht.held hdir (by simp)).2.no_slash hname
  constructor
  · intro p s entry h hentry
    rw [hget] at h
    split at h
    · exact absurd (Option.some.inj h).symm hentry
    · obtain ⟨hp, hs⟩ := ht.held h hentry
      refine ⟨?_, hs⟩
      rw [hget, if_neg]
      · exact hp
      · rintro rfl
        exact hold hp
  · intro p s h
    rw [hget] at h
    split at h
    · next heq =>
      obtain ⟨-, hs⟩ := List.append_inj' heq rfl
      cases hs
      exact hname
    · exact ht.unspelled h
  · intro p access h
    rw [refuses_set] at h
    exact isSome_get?_set hne (ht.refuses_there h)

theorem WellFormed.leave (ht : t.WellFormed) {way : List String} (hway : ∀ s ∈ way, '/' ∈ s.toList)
    (base : Location) : (t.leave base way).WellFormed := by
  induction way generalizing t base with
  | nil => exact ht
  | cons s below ih =>
    rw [List.forall_mem_cons] at hway
    exact ih (ht.set_removed hway.1) hway.2 _

/-- A tree stays well-formed when something is taken away, also under somebody's feet. -/
theorem WellFormed.removeAround (ht : t.WellFormed) (place here : Location) :
    (t.removeAround place here).1.WellFormed := by
  rw [FileTree.removeAround]
  split
  · refine (ht.remove place).leave ?_ _
    intro s hs
    obtain ⟨r, -, rfl⟩ := List.mem_map.1 hs
    simp
  · exact ht.remove place

/-! ## Growing -/

/-- Nothing is lost or changed, what is new is a directory at one of the given locations, put where
that was not refused, and no right has been given or taken. -/
structure GrownBy (region : List Location) (t t' : FileTree) : Prop where
  kept {p : Location} {entry : Entry} : t.get? p = some entry → t'.get? p = some entry
  fresh {p : Location} {entry : Entry} :
    t.get? p = none → t'.get? p = some entry → entry = .directory ∧ p ∈ region ∧ t.admits p
  refusals : t'.refusals = t.refusals

variable {region : List Location}

theorem GrownBy.refl (region : List Location) (t : FileTree) : GrownBy region t t where
  kept := id
  fresh h h' := by
    rw [h] at h'
    cases h'
  refusals := rfl

theorem GrownBy.mono {region' : List Location} (h : GrownBy region t t') (hsub : region ⊆ region') :
    GrownBy region' t t' :=
  ⟨h.kept, fun hp hp' => (h.fresh hp hp').imp_right (And.imp_left (@hsub _)), h.refusals⟩

theorem GrownBy.refuses (h : GrownBy region t t') (p : Location) (access : Access) :
    t'.refuses p access = t.refuses p access :=
  refuses_congr h.refusals p access

/-- What can be put at a location does not change, unless a directory has come to be there. -/
theorem GrownBy.admits (h : GrownBy region t t') {p : Location}
    (hnot : t'.get? p ≠ some .directory) : t'.admits p = t.admits p := by
  have hsome : (t'.get? p).isSome = (t.get? p).isSome := by
    cases hold : t.get? p with
    | some entry => rw [h.kept hold]
    | none =>
      cases hnew : t'.get? p with
      | none => rfl
      | some entry =>
        rw [(h.fresh hold hnew).1] at hnew
        exact absurd hnew hnot
  rw [FileTree.admits, FileTree.admits, keeper, keeper, hsome, h.refuses]

theorem GrownBy.trans (h : GrownBy region t t') (h' : GrownBy region t' t'') :
    GrownBy region t t'' := by
  refine ⟨fun hp => h'.kept (h.kept hp), fun {p entry} hp hp'' => ?_, h'.refusals.trans h.refusals⟩
  cases hmid : t'.get? p with
  | none =>
    have hadmits := h.admits (p := p) (by simp [hmid])
    rw [← hadmits]
    exact h'.fresh hmid hp''
  | some e =>
    have heq : entry = e := by
      have hk := h'.kept hmid
      rw [hp''] at hk
      exact Option.some.inj hk
    rw [heq]
    exact h.fresh hp hmid

/-- The files of a tree are the same after it has grown. -/
theorem GrownBy.file_iff (h : GrownBy region t t') {p : Location} {bytes : List UInt8} :
    t'.get? p = some (.file bytes) ↔ t.get? p = some (.file bytes) := by
  constructor
  · intro hp'
    cases hp : t.get? p with
    | none => exact absurd (h.fresh hp hp').1 (by simp)
    | some e =>
      have hk := h.kept hp
      rw [hp'] at hk
      exact congrArg some (Option.some.inj hk).symm
  · exact h.kept

theorem grownBy_set_directory (hnone : t.get? place = none) (hmem : place ∈ region)
    (hadmits : t.admits place) : GrownBy region t (t.set place .directory) := by
  have hne : place ≠ [] := by
    rintro rfl
    simp at hnone
  refine ⟨?_, ?_, refusals_set t place .directory⟩
  · intro p entry hp
    rw [get?_set hne, if_neg]
    · exact hp
    · rintro rfl
      rw [hnone] at hp
      cases hp
  · intro p entry hp hp'
    rw [get?_set hne] at hp'
    split at hp'
    · next heq => exact ⟨(Option.some.inj hp').symm, heq ▸ hmem, heq ▸ hadmits⟩
    · rw [hp] at hp'
      cases hp'

end FileTree

end WorkerEnv.Storage
