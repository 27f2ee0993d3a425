/-
# WorkerEnv.Proofs.Toml.Arrangement -- values that differ only in how they are arranged

A `Shape` says what of a value counts: in a record what stands under certain keys, wherever it stands
and whatever else is there; in a list or a map everything, in its order. `Shape.Alike` relates values
between which a shape does not tell, and a decoder `Respects` a shape if it reads such values alike.
Each way to make a decoder of others keeps this, so it is enough to give the shapes.

Keys that are no fields may hold anything `fine`. How fine that has to be is not for the shape to
say: a record must be able to pass over it.
-/

import Mathlib.Data.Option.Basic
import WorkerEnv.Proofs.Toml.Keys
import WorkerEnv.Toml.Decode

namespace WorkerEnv.Toml

/-! ## Shapes -/

/-- What of a value counts. -/
inductive Shape where
  /-- All of it. -/
  | exact
  /-- What stands under the given keys, each with a shape of its own. -/
  | record (fields : List (String × Shape))
  /-- The items, in their order. -/
  | list (item : Shape)
  /-- What stands under each key, in the order of the keys. -/
  | map (item : Shape)

/-- The shape of what may stand one level deeper, as the only field of a record. -/
def Shape.under (s : Shape) : Option String → Shape
  | none => s
  | some key => .record [(key, s)]

/-- Values between which a shape does not tell, if what stands under other keys is fine. A record that
is written as an array has its fields in order. -/
inductive Shape.Alike (fine : Value → Bool) : Shape → Value → Value → Prop where
  | refl (s : Shape) (v : Value) : Alike fine s v v
  | record {fields : List (String × Shape)} {entries entries' : Table}
      (hthere : ∀ key s, fields.lookup key = some s →
        (entries.lookup key).isSome = (entries'.lookup key).isSome)
      (hfields : ∀ key s v v', fields.lookup key = some s → entries.lookup key = some v →
        entries'.lookup key = some v' → Alike fine s v v')
      (hothers : ∀ e ∈ entries, fields.lookup e.1 = none → fine e.2)
      (hothers' : ∀ e ∈ entries', fields.lookup e.1 = none → fine e.2) :
      Alike fine (.record fields) (.table entries) (.table entries')
  | ordered {fields : List (String × Shape)} {items items' : List Value}
      (hlength : items.length = items'.length)
      (hfields : ∀ (i : Nat) field v v', fields[i]? = some field → items[i]? = some v →
        items'[i]? = some v' → Alike fine field.2 v v')
      (hrest : ∀ i, fields.length ≤ i → items[i]? = items'[i]?) :
      Alike fine (.record fields) (.array items) (.array items')
  | list {s : Shape} {items items' : List Value} (hlength : items.length = items'.length)
      (hitems : ∀ (i : Nat) v v', items[i]? = some v → items'[i]? = some v' → Alike fine s v v') :
      Alike fine (.list s) (.array items) (.array items')
  | map {s : Shape} {entries entries' : Table}
      (hkeys : entries.map (·.1) = entries'.map (·.1))
      (hitems : ∀ (i : Nat) e e', entries[i]? = some e → entries'[i]? = some e' →
        Alike fine s e.2 e'.2) :
      Alike fine (.map s) (.table entries) (.table entries')

section Relation

variable {fine : Value → Bool} {s : Shape} {v v' : Value}

theorem Shape.Alike.symm (h : s.Alike fine v v') : s.Alike fine v' v := by
  induction h with
  | refl s v => exact .refl s v
  | record hthere _ hothers hothers' ih =>
    exact .record (fun key s hs => (hthere key s hs).symm)
      (fun key s v v' hs hv hv' => ih key s v' v hs hv' hv) hothers' hothers
  | ordered hlength _ hrest ih =>
    exact .ordered hlength.symm (fun i field v v' hf hv hv' => ih i field v' v hf hv' hv)
      fun i hi => (hrest i hi).symm
  | list hlength _ ih => exact .list hlength.symm fun i v v' hv hv' => ih i v' v hv' hv
  | map hkeys _ ih => exact .map hkeys.symm fun i e e' he he' => ih i e' e he' he

theorem rel_of_isSome {α : Type} {R : α → α → Prop} {x x' : Option α}
    (hthere : x.isSome = x'.isSome) (h : ∀ a a', x = some a → x' = some a' → R a a') :
    Option.Rel R x x' := by
  cases x with
  | none =>
    cases x' with
    | none => exact .none
    | some a' => cases hthere
  | some a =>
    cases x' with
    | none => cases hthere
    | some a' => exact .some (h a a' rfl rfl)

theorem Shape.rel_refl (s : Shape) (x : Option Value) : Option.Rel (s.Alike fine) x x := by
  cases x with
  | none => exact .none
  | some v => exact .some (.refl s v)

/-- Records with the same fields, in any order. -/
theorem Shape.Alike.of_lookup {fields : List (String × Shape)} {entries entries' : Table}
    (hsame : ∀ key ∈ fields.map (·.1), entries.lookup key = entries'.lookup key)
    (hothers : ∀ e ∈ entries, fields.lookup e.1 = none → fine e.2)
    (hothers' : ∀ e ∈ entries', fields.lookup e.1 = none → fine e.2) :
    (Shape.record fields).Alike fine (.table entries) (.table entries') := by
  have hfield : ∀ key s, fields.lookup key = some s → entries.lookup key = entries'.lookup key :=
    fun key s hs => hsame key (List.mem_map.2 ⟨_, mem_of_lookup hs, rfl⟩)
  refine .record (fun key s hs => congrArg _ (hfield key s hs)) ?_ hothers hothers'
  intro key s v v' hs hv hv'
  rw [hfield key s hs, hv'] at hv
  cases hv
  exact .refl s _

end Relation

/-! ## What is held -/

section Leaves

variable {test test' : Value → Bool}

theorem itemsAll_iff {items : List Value} :
    itemsAll test items ↔ ∀ v ∈ items, v.allLeaves test := by
  induction items with
  | nil => simp [itemsAll]
  | cons v rest ih => simp [itemsAll, ih]

theorem entriesAll_iff {entries : Table} :
    entriesAll test entries ↔ ∀ e ∈ entries, e.2.allLeaves test := by
  induction entries with
  | nil => simp [entriesAll]
  | cons e rest ih => simp [entriesAll, ih]

mutual

theorem Value.allLeaves_mono (h : ∀ v, test v → test' v) :
    (v : Value) → v.allLeaves test → v.allLeaves test'
  | .array items, hall => by
    rw [Value.allLeaves] at hall ⊢
    exact itemsAll_mono h items hall
  | .table entries, hall => by
    rw [Value.allLeaves] at hall ⊢
    exact entriesAll_mono h entries hall
  | .string s, hall => h (.string s) hall
  | .integer i, hall => h (.integer i) hall
  | .float x, hall => h (.float x) hall
  | .boolean b, hall => h (.boolean b) hall
  | .moment m, hall => h (.moment m) hall
  | .unreadable, hall => h .unreadable hall

theorem itemsAll_mono (h : ∀ v, test v → test' v) :
    (items : List Value) → itemsAll test items → itemsAll test' items
  | [], _ => rfl
  | v :: rest, hall => by
    rw [itemsAll, Bool.and_eq_true] at hall ⊢
    exact ⟨Value.allLeaves_mono h v hall.1, itemsAll_mono h rest hall.2⟩

theorem entriesAll_mono (h : ∀ v, test v → test' v) :
    (entries : Table) → entriesAll test entries → entriesAll test' entries
  | [], _ => rfl
  | (_, v) :: rest, hall => by
    rw [entriesAll, Bool.and_eq_true] at hall ⊢
    exact ⟨Value.allLeaves_mono h v hall.1, entriesAll_mono h rest hall.2⟩

end

theorem isReadable_of_isHoldable {v : Value} (h : v.isHoldable) : v.isReadable := by
  refine Value.allLeaves_mono ?_ v h
  intro v hv
  cases v <;> simp_all

/-- Of two values between which a shape does not tell both can be held, or none can. Each entry of one
is either found in the other by its key or is fine. -/
theorem Shape.Alike.allLeaves {fine : Value → Bool} {s : Shape} {v v' : Value}
    (hfine : ∀ v, fine v → v.allLeaves test) (h : s.Alike fine v v') (hsound : v'.Sound)
    (hall : v.allLeaves test) : v'.allLeaves test := by
  induction h with
  | refl s v => exact hall
  | @record fields entries entries' hthere _ _ hothers' ih =>
    rw [Value.allLeaves, entriesAll_iff] at hall ⊢
    intro e he
    have hlookup : entries'.lookup e.1 = some e.2 := lookup_of_mem hsound.of_table.nodup he
    cases hfield : fields.lookup e.1 with
    | none => exact hfine e.2 (hothers' e he hfield)
    | some s =>
      have hsome := hthere e.1 s hfield
      rw [hlookup] at hsome
      obtain ⟨v, hv⟩ := Option.isSome_iff_exists.1 hsome
      exact ih e.1 s v e.2 hfield hv hlookup (hsound.of_table.each e he) (hall _ (mem_of_lookup hv))
  | @ordered fields items items' hlength _ hrest ih =>
    rw [Value.allLeaves, itemsAll_iff] at hall ⊢
    intro v' hv'
    obtain ⟨i, hi⟩ := List.mem_iff_getElem?.1 hv'
    have hbound : i < items.length := by
      rw [hlength]
      exact (List.getElem?_eq_some_iff.1 hi).1
    by_cases hfield : i < fields.length
    · exact ih i fields[i] items[i] v' (List.getElem?_eq_getElem hfield)
        (List.getElem?_eq_getElem hbound) hi (hsound.of_mem_array v' hv')
        (hall _ (List.getElem_mem hbound))
    · rw [← hrest i (Nat.le_of_not_lt hfield)] at hi
      exact hall v' (List.mem_iff_getElem?.2 ⟨i, hi⟩)
  | @list s items items' hlength _ ih =>
    rw [Value.allLeaves, itemsAll_iff] at hall ⊢
    intro v' hv'
    obtain ⟨i, hi⟩ := List.mem_iff_getElem?.1 hv'
    have hbound : i < items.length := by
      rw [hlength]
      exact (List.getElem?_eq_some_iff.1 hi).1
    exact ih i items[i] v' (List.getElem?_eq_getElem hbound) hi (hsound.of_mem_array v' hv')
      (hall _ (List.getElem_mem hbound))
  | @map s entries entries' hkeys _ ih =>
    rw [Value.allLeaves, entriesAll_iff] at hall ⊢
    intro e' he'
    obtain ⟨i, hi⟩ := List.mem_iff_getElem?.1 he'
    have hbound : i < entries.length := by
      rw [← List.length_map (fun e : String × Value => e.1), hkeys, List.length_map]
      exact (List.getElem?_eq_some_iff.1 hi).1
    exact ih i entries[i] e' (List.getElem?_eq_getElem hbound) hi (hsound.of_table.each e' he')
      (hall _ (List.getElem_mem hbound))

end Leaves

/-! ## Decoders -/

section Decoders

variable {α β : Type} {fine : Value → Bool} {s : Shape} {key : String}
variable {fields : List (String × Shape)} {f f' : Fields}

/-- The decoder reads values alike between which the shape does not tell. -/
def Respects (fine : Value → Bool) (s : Shape) (d : Decoder α) : Prop :=
  ∀ reading v v', s.Alike fine v v' → d reading v = d reading v'

theorem respects_exact (d : Decoder α) : Respects fine .exact d := by
  intro reading v v' h
  cases h
  rfl

theorem mapM_congr_getElem? {g g' : α → Option β} {as bs : List α}
    (hlength : as.length = bs.length)
    (h : ∀ (i : Nat) a b, as[i]? = some a → bs[i]? = some b → g a = g' b) :
    as.mapM g = bs.mapM g' := by
  induction as generalizing bs with
  | nil =>
    cases bs with
    | nil => rfl
    | cons b rest => cases hlength
  | cons a rest ih =>
    cases bs with
    | nil => cases hlength
    | cons b rest' =>
      rw [List.mapM_cons, List.mapM_cons, h 0 a b rfl rfl,
        ih (by simpa using hlength) fun i a b ha hb => h (i + 1) a b ha hb]

theorem respects_listOf {item : Decoder α} (h : Respects fine s item) :
    Respects fine (.list s) (listOf item) := by
  intro reading v v' halike
  cases halike with
  | refl => rfl
  | list hlength hitems =>
    exact mapM_congr_getElem? hlength fun i v v' hv hv' => h reading v v' (hitems i v v' hv hv')

theorem respects_tableOf {item : Decoder α} (h : Respects fine s item) :
    Respects fine (.map s) (tableOf item) := by
  intro reading v v' halike
  cases halike with
  | refl => rfl
  | @map _ entries entries' hkeys hitems =>
    have hlength : entries.length = entries'.length := by
      simpa using congrArg List.length hkeys
    refine mapM_congr_getElem? hlength ?_
    intro i e e' he he'
    have hkey : e.1 = e'.1 := by
      have hget := congrArg (·[i]?) hkeys
      simpa [he, he'] using hget
    obtain ⟨key, v⟩ := e
    obtain ⟨key', v'⟩ := e'
    obtain rfl : key = key' := hkey
    exact congrArg (Option.map (key, ·)) (h reading v v' (hitems i _ _ he he'))

/-! ## Records -/

/-- Fields of two records that are there in both or in none, and are alike. -/
structure AlikeFields (fine : Value → Bool) (fields : List (String × Shape)) (f f' : Fields) :
    Prop where
  reading : f.reading = f'.reading
  inOrder : f.inOrder = f'.inOrder
  entries : ∀ key s, fields.lookup key = some s →
    Option.Rel (s.Alike fine) (f.entries.lookup key) (f'.entries.lookup key)

theorem AlikeFields.refl (f : Fields) : AlikeFields fine fields f f :=
  ⟨rfl, rfl, fun _ s _ => s.rel_refl _⟩

/-- Fields in order are alike if they are in pairs. -/
theorem rel_lookup_zip {items items' : List Value} (hlength : items.length = items'.length)
    (hitems : ∀ (i : Nat) field v v', fields[i]? = some field → items[i]? = some v →
      items'[i]? = some v' → field.2.Alike fine v v') (hfield : fields.lookup key = some s) :
    Option.Rel (s.Alike fine) (((fields.map (·.1)).zip items).lookup key)
      (((fields.map (·.1)).zip items').lookup key) := by
  induction fields generalizing items items' with
  | nil => cases hfield
  | cons field rest ih =>
    cases items with
    | nil =>
      cases items' with
      | nil => exact .none
      | cons v' more' => cases hlength
    | cons v more =>
      cases items' with
      | nil => cases hlength
      | cons v' more' =>
        rw [List.lookup_cons] at hfield
        rw [List.map_cons, List.zip_cons_cons, List.zip_cons_cons, List.lookup_cons,
          List.lookup_cons]
        cases hkey : key == field.1 with
        | true =>
          simp only [hkey, Option.some.injEq] at hfield
          subst hfield
          exact .some (hitems 0 field v v' rfl rfl rfl)
        | false =>
          simp only [hkey] at hfield
          exact ih (by simpa using hlength)
            (fun i field v v' hf hv hv' => hitems (i + 1) field v v' hf hv hv') hfield

theorem Fields.ofValue?_table (hfine : ∀ v, fine v → v.isReadable) {entries : Table}
    (hothers : ∀ e ∈ entries, fields.lookup e.1 = none → fine e.2) (reading : Reading) :
    Fields.ofValue? (fields.map (·.1)) reading (.table entries) = some ⟨entries, reading, false⟩ := by
  have hguard : entries.all (fun e => (fields.map (·.1)).contains e.1 || e.2.isReadable) := by
    rw [List.all_eq_true]
    intro e he
    cases hfield : fields.lookup e.1 with
    | none => rw [hfine e.2 (hothers e he hfield), Bool.or_true]
    | some s =>
      have hmem : e.1 ∈ fields.map (·.1) := List.mem_map.2 ⟨_, mem_of_lookup hfield, rfl⟩
      rw [List.contains_iff_mem.2 hmem, Bool.true_or]
  have hsome : (guard (entries.all fun e => (fields.map (·.1)).contains e.1 || e.2.isReadable) :
      Option Unit) = some () := by
    rw [guard, if_pos hguard]
    rfl
  have hvalue : Fields.ofValue? (fields.map (·.1)) reading (.table entries) =
      (guard (entries.all fun e => (fields.map (·.1)).contains e.1 || e.2.isReadable) :
        Option Unit).bind fun _ => some ⟨entries, reading, false⟩ := by
    cases reading <;> rfl
  rw [hvalue, hsome]
  rfl

/-- Both values are records with fields that are alike, or none is a record. -/
theorem rel_ofValue? (hfine : ∀ v, fine v → v.isReadable) {v v' : Value}
    (h : (Shape.record fields).Alike fine v v') (reading : Reading) :
    Option.Rel (AlikeFields fine fields) (Fields.ofValue? (fields.map (·.1)) reading v)
      (Fields.ofValue? (fields.map (·.1)) reading v') := by
  cases h with
  | refl =>
    refine rel_of_isSome rfl ?_
    intro f f' hf hf'
    rw [hf] at hf'
    cases hf'
    exact .refl f
  | @record _ entries entries' hthere hfields hothers hothers' =>
    rw [Fields.ofValue?_table hfine hothers, Fields.ofValue?_table hfine hothers']
    exact .some ⟨rfl, rfl, fun key s hs => rel_of_isSome (hthere key s hs)
      fun v v' hv hv' => hfields key s v v' hs hv hv'⟩
  | @ordered _ items items' hlength hfields hrest =>
    have halike : ∀ reading, AlikeFields fine fields ⟨(fields.map (·.1)).zip items, reading, true⟩
        ⟨(fields.map (·.1)).zip items', reading, true⟩ :=
      fun reading => ⟨rfl, rfl, fun key s hs => rel_lookup_zip hlength hfields hs⟩
    cases reading with
    | direct => exact .some (halike .direct)
    | held =>
      simp only [Fields.ofValue?, ← hlength]
      split_ifs
      · exact .some (halike .held)
      · exact .none

theorem respects_record (fields : List (String × Shape)) (hfine : ∀ v, fine v → v.isReadable)
    {g : Fields → Option α} (hg : ∀ f f', AlikeFields fine fields f f' → g f = g f') :
    Respects fine (.record fields) fun reading v =>
      (Fields.ofValue? (fields.map (·.1)) reading v).bind g := by
  intro reading v v' h
  have hrel := rel_ofValue? hfine h reading
  change (Fields.ofValue? _ reading v).bind g = (Fields.ofValue? _ reading v').bind g
  generalize Fields.ofValue? (fields.map (·.1)) reading v = x at hrel ⊢
  generalize Fields.ofValue? (fields.map (·.1)) reading v' = x' at hrel ⊢
  cases hrel with
  | none => rfl
  | some halike => exact hg _ _ halike

section Fields

variable {d : Decoder α}

theorem AlikeFields.orElse (h : AlikeFields fine fields f f') (hfield : fields.lookup key = some s)
    (hd : Respects fine s d) (default : α) : f.orElse key d default = f'.orElse key d default := by
  have hrel := h.entries key s hfield
  rw [Fields.orElse, Fields.orElse, h.reading]
  generalize f.entries.lookup key = x at hrel ⊢
  generalize f'.entries.lookup key = x' at hrel ⊢
  cases hrel with
  | none => rfl
  | some halike => exact hd _ _ _ halike

theorem AlikeFields.optional (h : AlikeFields fine fields f f')
    (hfield : fields.lookup key = some s) (hd : Respects fine s d) :
    f.optional key d = f'.optional key d := by
  have hrel := h.entries key s hfield
  rw [Fields.optional, Fields.optional, h.reading, h.inOrder]
  generalize f.entries.lookup key = x at hrel ⊢
  generalize f'.entries.lookup key = x' at hrel ⊢
  cases hrel with
  | none => rfl
  | some halike => exact congrArg (Option.map some) (hd _ _ _ halike)

theorem AlikeFields.required (h : AlikeFields fine fields f f')
    (hfield : fields.lookup key = some s) (hd : Respects fine s d) :
    f.required key d = f'.required key d := by
  have hrel := h.entries key s hfield
  rw [Fields.required, Fields.required, h.reading]
  generalize f.entries.lookup key = x at hrel ⊢
  generalize f'.entries.lookup key = x' at hrel ⊢
  cases hrel with
  | none => rfl
  | some halike => exact hd _ _ _ halike

theorem AlikeFields.nested (h : AlikeFields fine fields f f') (hfine : ∀ v, fine v → v.isReadable)
    {inner : Option String} (hfield : fields.lookup key = some (s.under inner))
    (hd : Respects fine s d) (default : α) :
    f.nested key inner d default = f'.nested key inner d default := by
  cases inner with
  | none => exact h.orElse hfield hd default
  | some key' =>
    refine h.orElse hfield (respects_record [(key', s)] hfine ?_) default
    intro g g' hg
    exact hg.orElse (by simp) hd default

end Fields

end Decoders

end WorkerEnv.Toml
