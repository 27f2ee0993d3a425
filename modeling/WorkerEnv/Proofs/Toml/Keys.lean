/-
# WorkerEnv.Proofs.Toml.Keys -- no key stands twice

A statement that gives a key a value, or opens a table under it, is refused where the key is taken.
So no table under construction ever has a key twice, at whatever depth; every rule of the tree keeps
this (`Keeps`). In such a table looking up a key finds all there is under it.
-/

import Mathlib.Tactic.SplitIfs
import WorkerEnv.Toml.Tree

namespace WorkerEnv.Toml

variable {α : Type} {key : String} {a : α} {es es' : List (String × α)}

/-! ## Lists of keys with what stands under them -/

theorem mem_of_lookup (h : es.lookup key = some a) : (key, a) ∈ es := by
  obtain ⟨before, after, rfl, -⟩ := List.lookup_eq_some_iff.1 h
  simp

theorem not_mem_keys_of_lookup (h : es.lookup key = none) : key ∉ es.map (·.1) := by
  rw [List.lookup_eq_none_iff] at h
  intro hmem
  obtain ⟨e, he, rfl⟩ := List.mem_map.1 hmem
  simpa using h e he

/-- Where no key stands twice, everything is found by its key. -/
theorem lookup_of_mem (hnodup : (es.map (·.1)).Nodup) (h : (key, a) ∈ es) :
    es.lookup key = some a := by
  induction es with
  | nil => cases h
  | cons e rest ih =>
    rw [List.map_cons, List.nodup_cons] at hnodup
    rw [List.lookup_cons]
    rcases List.mem_cons.1 h with rfl | hrest
    · simp
    · have hne : key ≠ e.1 := by
        rintro rfl
        exact hnodup.1 (List.mem_map.2 ⟨_, hrest, rfl⟩)
      simp only [beq_eq_false_iff_ne.2 hne]
      exact ih hnodup.2 hrest

/-- No key stands twice, and what stands under the keys is sound. -/
structure Keyed (sound : α → Prop) (es : List (String × α)) : Prop where
  nodup : (es.map (·.1)).Nodup
  each : ∀ e ∈ es, sound e.2

namespace Keyed

variable {sound : α → Prop}

theorem nil : Keyed sound [] := ⟨List.nodup_nil, by simp⟩

theorem at_key (h : Keyed sound es) (hlookup : es.lookup key = some a) : sound a :=
  h.each _ (mem_of_lookup hlookup)

theorem append (h : Keyed sound es) (hnone : key ∉ es.map (·.1)) (ha : sound a) :
    Keyed sound (es ++ [(key, a)]) := by
  obtain ⟨hnodup, heach⟩ := h
  constructor
  · rw [List.map_append, List.nodup_append]
    refine ⟨hnodup, by simp, ?_⟩
    intro k hk k' hk' heq
    rw [List.map_singleton, List.mem_singleton] at hk'
    rw [heq, hk'] at hk
    exact hnone hk
  · intro e he
    rcases List.mem_append.1 he with he | he
    · exact heach e he
    · rw [List.mem_singleton.1 he]
      exact ha

theorem filter (h : Keyed sound es) (keep : String × α → Bool) : Keyed sound (es.filter keep) where
  nodup := h.nodup.sublist (List.filter_sublist.map _)
  each e he := h.each e (List.mem_filter.1 he).1

end Keyed

/-! ## Sound values -/

/-- Whether a value holds no others. -/
def Value.isPlain : Value → Bool
  | .array _ => false
  | .table _ => false
  | _ => true

/-- No table in the value has a key twice. -/
inductive Value.Sound : Value → Prop where
  | plain {v : Value} (h : v.isPlain) : Sound v
  | array {items : List Value} (h : ∀ v ∈ items, Sound v) : Sound (.array items)
  | table {entries : Table} (hkeys : (entries.map (·.1)).Nodup) (h : ∀ e ∈ entries, Sound e.2) :
      Sound (.table entries)

theorem Value.Sound.of_mem_array {items : List Value} (h : (Value.array items).Sound) :
    ∀ v ∈ items, v.Sound := by
  cases h with
  | plain h => cases h
  | array h => exact h

theorem Value.Sound.of_table {entries : Table} (h : (Value.table entries).Sound) :
    Keyed Value.Sound entries := by
  cases h with
  | plain h => cases h
  | table hkeys h => exact ⟨hkeys, h⟩

/-! ## Sound nodes -/

/-- No table in the node has a key twice. -/
inductive Node.Sound : Node → Prop where
  | value {v : Value} (h : v.Sound) : Sound (.value v)
  | table {entries : Entries} (origin : Origin) (hkeys : (entries.map (·.1)).Nodup)
      (h : ∀ e ∈ entries, Sound e.2) : Sound (.table origin entries)
  | tables {elements : List Entries} (hkeys : ∀ es ∈ elements, (es.map (·.1)).Nodup)
      (h : ∀ es ∈ elements, ∀ e ∈ es, Sound e.2) : Sound (.tables elements)

section Tree

variable {es : Entries} {node : Node} {v : Value} {elements : List Entries} {path : KeyPath}
variable {change : Entries → Option Entries}

theorem Node.sound_table_iff {origin : Origin} :
    (Node.table origin es).Sound ↔ Keyed Node.Sound es := by
  constructor
  · intro h
    cases h with
    | table _ hkeys h => exact ⟨hkeys, h⟩
  · exact fun h => .table origin h.nodup h.each

theorem Node.sound_tables_iff :
    (Node.tables elements).Sound ↔ ∀ es ∈ elements, Keyed Node.Sound es := by
  constructor
  · intro h es hes
    cases h with
    | tables hkeys h => exact ⟨hkeys es hes, h es hes⟩
  · exact fun h => .tables (fun es hes => (h es hes).nodup) fun es hes => (h es hes).each

theorem finishedEntries_eq (es : Entries) :
    finishedEntries es = es.map fun e => (e.1, e.2.finished) := by
  induction es with
  | nil => rfl
  | cons e rest ih => rw [finishedEntries, ih, List.map_cons]

theorem finishedElements_eq (elements : List Entries) :
    finishedElements elements = elements.map fun es => .table (finishedEntries es) := by
  induction elements with
  | nil => rfl
  | cons es rest ih => rw [finishedElements, ih, List.map_cons]

theorem map_fst_finishedEntries (es : Entries) :
    (finishedEntries es).map (·.1) = es.map (·.1) := by
  rw [finishedEntries_eq, List.map_map]
  rfl

theorem Node.Sound.finished (h : node.Sound) : node.finished.Sound := by
  induction h with
  | value h => exact h
  | @table entries origin hkeys _ ih =>
    refine .table (by rwa [map_fst_finishedEntries]) ?_
    rw [finishedEntries_eq]
    exact List.forall_mem_map.2 ih
  | @tables elements hkeys _ ih =>
    rw [Node.finished, finishedElements_eq]
    refine .array (List.forall_mem_map.2 ?_)
    intro es hes
    refine .table (by rw [map_fst_finishedEntries]; exact hkeys es hes) ?_
    rw [finishedEntries_eq]
    exact List.forall_mem_map.2 (ih es hes)

theorem Keyed.finished (h : Keyed Node.Sound es) : Keyed Value.Sound (finishedEntries es) where
  nodup := by
    rw [map_fst_finishedEntries]
    exact h.nodup
  each := by
    rw [finishedEntries_eq]
    exact List.forall_mem_map.2 fun e he => (h.each e he).finished

theorem Keyed.replace (h : Keyed Node.Sound es) (key : String) (hnode : node.Sound) :
    Keyed Node.Sound (es.replace key node) := by
  have hkeys : (es.replace key node).map (·.1) = es.map (·.1) := by
    rw [Entries.replace, List.map_map]
    refine List.map_congr_left ?_
    intro e _
    simp only [Function.comp_apply]
    split_ifs with he
    · exact he.symm
    · rfl
  refine ⟨by rw [hkeys]; exact h.nodup, ?_⟩
  rw [Entries.replace]
  refine List.forall_mem_map.2 ?_
  intro e he
  split_ifs
  · exact hnode
  · exact h.each e he

/-! ## What the rules keep -/

/-- A change that makes sound tables of sound tables. -/
def Keeps (change : Entries → Option Entries) : Prop :=
  ∀ es es', Keyed Node.Sound es → change es = some es' → Keyed Node.Sound es'

theorem Keeps.onLast (hchange : Keeps change) {elements' : List Entries}
    (h : onLast change elements = some elements') (hall : ∀ es ∈ elements, Keyed Node.Sound es) :
    ∀ es ∈ elements', Keyed Node.Sound es := by
  rw [Toml.onLast] at h
  cases hlast : elements.getLast? with
  | none =>
    rw [hlast] at h
    cases h
  | some last =>
    rw [hlast] at h
    obtain ⟨new, hnew, rfl⟩ := Option.map_eq_some_iff.1 h
    intro es hes
    rcases List.mem_append.1 hes with hes | hes
    · exact hall es (List.dropLast_subset _ hes)
    · rw [List.mem_singleton.1 hes]
      exact hchange last new (hall last (List.mem_of_getLast? hlast)) hnew

theorem keeps_assign (hv : v.Sound) (path : KeyPath) : Keeps (Entries.assign path v) := by
  induction path with
  | nil =>
    intro es es' _ h
    cases h
  | cons key rest ih =>
    intro es es' hes h
    cases rest with
    | nil =>
      rw [Entries.assign] at h
      cases hlookup : es.lookup key with
      | none =>
        rw [hlookup] at h
        cases h
        exact hes.append (not_mem_keys_of_lookup hlookup) (.value hv)
      | some node =>
        rw [hlookup] at h
        cases h
    | cons next path =>
      have hput : ∀ (t : Entries) (origin : Origin), Keyed Node.Sound t →
          (Entries.assign (next :: path) v t).map
            (fun t => Entries.replace es key (.table origin t)) = some es' → Keyed Node.Sound es' := by
        intro t origin ht hmap
        obtain ⟨new, hnew, rfl⟩ := Option.map_eq_some_iff.1 hmap
        exact hes.replace key (Node.sound_table_iff.2 (ih t new ht hnew))
      rw [Entries.assign] at h
      cases hlookup : es.lookup key with
      | none =>
        rw [hlookup] at h
        obtain ⟨new, hnew, rfl⟩ := Option.map_eq_some_iff.1 h
        exact hes.append (not_mem_keys_of_lookup hlookup)
          (Node.sound_table_iff.2 (ih [] new .nil hnew))
      | some node =>
        rw [hlookup] at h
        have hnode := hes.at_key hlookup
        cases node with
        | value w => cases h
        | table origin t =>
          have ht := Node.sound_table_iff.1 hnode
          cases origin with
          | opened => cases h
          | implied =>
            simp only at h
            split_ifs at h
            exact hput t .implied ht h
          | dotted => exact hput t .dotted ht h
        | tables elements =>
          simp only at h
          split_ifs at h
          obtain ⟨new, hnew, rfl⟩ := Option.map_eq_some_iff.1 h
          exact hes.replace key
            (Node.sound_tables_iff.2 (Keeps.onLast ih hnew (Node.sound_tables_iff.1 hnode)))

theorem keeps_assignAll {pairs : List (KeyPath × Value)} (h : ∀ pair ∈ pairs, pair.2.Sound) :
    Keeps (Entries.assignAll · pairs) := by
  induction pairs with
  | nil =>
    intro es es' hes hall
    cases hall
    exact hes
  | cons pair rest ih =>
    intro es es' hes hall
    simp only [Entries.assignAll, List.foldlM_cons] at hall
    obtain ⟨mid, hmid, hrest⟩ := Option.bind_eq_some_iff.1 hall
    have hpair := keeps_assign (h pair (by simp)) pair.1 es mid hes hmid
    exact ih (fun p hp => h p (by simp [hp])) mid es' hpair hrest

theorem keeps_within (hchange : Keeps change) (path : KeyPath) :
    Keeps (Entries.within path change) := by
  induction path with
  | nil => exact hchange
  | cons key path ih =>
    intro es es' hes h
    rw [Entries.within] at h
    cases hlookup : es.lookup key with
    | none =>
      rw [hlookup] at h
      obtain ⟨new, hnew, rfl⟩ := Option.map_eq_some_iff.1 h
      exact hes.append (not_mem_keys_of_lookup hlookup)
        (Node.sound_table_iff.2 (ih [] new .nil hnew))
    | some node =>
      rw [hlookup] at h
      have hnode := hes.at_key hlookup
      cases node with
      | value w => cases h
      | table origin t =>
        obtain ⟨new, hnew, rfl⟩ := Option.map_eq_some_iff.1 h
        exact hes.replace key
          (Node.sound_table_iff.2 (ih t new (Node.sound_table_iff.1 hnode) hnew))
      | tables elements =>
        obtain ⟨new, hnew, rfl⟩ := Option.map_eq_some_iff.1 h
        exact hes.replace key
          (Node.sound_tables_iff.2 (Keeps.onLast ih hnew (Node.sound_tables_iff.1 hnode)))

/-- A table that was implied moves to the end, and leaves its old place. -/
theorem keeps_openTable {body : List (KeyPath × Value)} (h : ∀ pair ∈ body, pair.2.Sound)
    (key : String) : Keeps (Entries.openTable key body) := by
  intro es es' hes hopen
  rw [Entries.openTable] at hopen
  cases hlookup : es.lookup key with
  | none =>
    rw [hlookup] at hopen
    obtain ⟨new, hnew, rfl⟩ := Option.map_eq_some_iff.1 hopen
    exact hes.append (not_mem_keys_of_lookup hlookup)
      (Node.sound_table_iff.2 (keeps_assignAll h [] new .nil hnew))
  | some node =>
    rw [hlookup] at hopen
    have hnode := hes.at_key hlookup
    cases node with
    | value w => cases hopen
    | tables elements => cases hopen
    | table origin t =>
      cases origin with
      | opened => cases hopen
      | dotted => cases hopen
      | implied =>
        obtain ⟨new, hnew, rfl⟩ := Option.map_eq_some_iff.1 hopen
        refine (hes.filter _).append ?_ (Node.sound_table_iff.2
          (keeps_assignAll h t new (Node.sound_table_iff.1 hnode) hnew))
        intro hmem
        obtain ⟨e, he, hkey⟩ := List.mem_map.1 hmem
        simpa [hkey] using (List.mem_filter.1 he).2

theorem keeps_openElement {body : List (KeyPath × Value)} (h : ∀ pair ∈ body, pair.2.Sound)
    (key : String) : Keeps (Entries.openElement key body) := by
  intro es es' hes hopen
  rw [Entries.openElement] at hopen
  have hnew : ∀ new, Entries.assignAll [] body = some new → Keyed Node.Sound new :=
    fun new => keeps_assignAll h [] new .nil
  cases hlookup : es.lookup key with
  | none =>
    rw [hlookup] at hopen
    obtain ⟨new, hfilled, rfl⟩ := Option.map_eq_some_iff.1 hopen
    refine hes.append (not_mem_keys_of_lookup hlookup) (Node.sound_tables_iff.2 ?_)
    simpa using hnew new hfilled
  | some node =>
    rw [hlookup] at hopen
    have hnode := hes.at_key hlookup
    cases node with
    | value w => cases hopen
    | table origin t => cases hopen
    | tables elements =>
      obtain ⟨new, hfilled, rfl⟩ := Option.map_eq_some_iff.1 hopen
      refine hes.replace key (Node.sound_tables_iff.2 ?_)
      intro es hes
      rcases List.mem_append.1 hes with hes | hes
      · exact Node.sound_tables_iff.1 hnode es hes
      · rw [List.mem_singleton.1 hes]
        exact hnew new hfilled

end Tree

end WorkerEnv.Toml
