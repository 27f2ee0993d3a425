/-
# WorkerEnv.Proofs.Toml.Soundness -- a document that has been read has every key once

Arrays and inline tables are read item by item, and scalars hold nothing, so every value that is read
is sound; inline tables obey the rule of keys with values. What the statements then make of the values
is sound too, since each rule of the tree keeps it. So the table of a document has no key twice, at
whatever depth.
-/

import WorkerEnv.Proofs.Toml.Keys
import WorkerEnv.Toml.Document

namespace WorkerEnv.Toml

variable {α : Type}

/-! ## Values -/

variable {s r : List Char} {v : Value}

/-- The step has found an item. -/
def Step.Finds (found : Step α) (a : α) : Prop := found = .more a ∨ found = .last a

/-- What holds of every item that a step finds holds of all items of a repetition. -/
theorem forall_mem_all {P : α → Prop} {step : Reader (Step α)}
    (hstep : ∀ s r found a, step s = some (found, r) → found.Finds a → P a)
    {as : List α} (h : all step s = some (as, r)) : ∀ a ∈ as, P a := by
  have hupTo : ∀ fuel s as r, upTo step fuel s = some (as, r) → ∀ a ∈ as, P a := by
    intro fuel
    induction fuel with
    | nil =>
      intro s as r h
      cases h
    | cons c fuel ih =>
      intro s as r h
      rw [upTo] at h
      split at h
      · cases h
      · cases h
        simp
      · next a r' hlast =>
        cases h
        simpa using hstep s _ _ a hlast (Or.inr rfl)
      · next a r' hmore =>
        split at h
        · cases h
        · next as' r'' hrest =>
          cases h
          exact List.forall_mem_cons.2 ⟨hstep s _ _ a hmore (Or.inl rfl), ih _ _ _ hrest⟩
  exact hupTo _ s as r h

theorem eq_of_separated {close : Char} {item a : α} {found : Step α}
    (h : separated close item s = some (found, r)) (hfinds : found.Finds a) : a = item := by
  rw [separated] at h
  split at h
  · split_ifs at h <;> cases h <;> simpa [Step.Finds, eq_comm] using hfinds
  · cases h

theorem forall_mem_enclosed {P : α → Prop} {close : Char} {item : Reader α}
    (hitem : ∀ s a r, item s = some (a, r) → P a) {as : List α}
    (h : enclosed close item s = some (as, r)) : ∀ a ∈ as, P a := by
  refine forall_mem_all ?_ h
  intro s r found a hstep hfinds
  split at hstep
  · split_ifs at hstep
    · cases hstep
      simp [Step.Finds] at hfinds
    · split at hstep
      · next a' r' hread =>
        rw [eq_of_separated hstep hfinds]
        exact hitem _ _ _ hread
      · cases hstep
  · cases hstep

theorem isPlain_integer (i : Option Int) : (integer i).isPlain := by
  cases i with
  | none => rfl
  | some i =>
    rw [integer]
    split_ifs <;> rfl

theorem isPlain_number? (h : number? s = some v) : v.isPlain := by
  have hbased : ∀ base isBaseDigit s, based? base isBaseDigit s = some v → v.isPlain := by
    intro base isBaseDigit s h
    rw [based?] at h
    obtain ⟨_, _, h⟩ := Option.bind_eq_some_iff.1 h
    obtain ⟨digits, _, h⟩ := Option.bind_eq_some_iff.1 h
    cases h
    exact isPlain_integer _
  have hinteger : decimalInteger? s = some v → v.isPlain := by
    intro h
    rw [decimalInteger?] at h
    obtain ⟨text, _, h⟩ := Option.bind_eq_some_iff.1 h
    obtain ⟨_, _, h⟩ := Option.bind_eq_some_iff.1 h
    cases h
    exact isPlain_integer _
  have hfloat : decimalFloat? s = some v → v.isPlain := by
    intro h
    rw [decimalFloat?] at h
    obtain ⟨text, _, h⟩ := Option.bind_eq_some_iff.1 h
    obtain ⟨exponent, _, h⟩ := Option.bind_eq_some_iff.1 h
    obtain ⟨fraction, _, h⟩ := Option.bind_eq_some_iff.1 h
    obtain ⟨_, _, h⟩ := Option.bind_eq_some_iff.1 h
    cases h
    split_ifs <;> rfl
  rw [number?] at h
  split at h
  · exact hbased _ _ _ h
  · exact hbased _ _ _ h
  · exact hbased _ _ _ h
  · split_ifs at h
    · cases h
      rfl
    · cases h
      rfl
    · simp only [decimal?] at h
      split_ifs at h
      · exact hfloat h
      · exact hinteger h

theorem isPlain_scalar (h : scalar s = some (v, r)) : v.isPlain := by
  have hscalar : ∀ run, scalar? run = some v → v.isPlain := by
    intro run h
    rw [scalar?] at h
    split_ifs at h
    · cases h
      rfl
    · cases h
      rfl
    · split at h
      · cases h
        rfl
      · exact isPlain_number? h
  have hmap : ∀ run rest, (scalar? run).map (fun v => (v, rest)) = some (v, r) → v.isPlain := by
    intro run rest h
    obtain ⟨v', hv', heq⟩ := Option.map_eq_some_iff.1 h
    cases heq
    exact hscalar run hv'
  rw [scalar] at h
  simp only at h
  split at h
  · split_ifs at h
    · exact hmap _ _ h
    · exact hmap _ _ h
  · exact hmap _ _ h

theorem isPlain_plain (h : plain s = some (v, r)) : v.isPlain := by
  rw [plain.eq_def] at h
  split at h
  · cases h
  · split_ifs at h
    · obtain ⟨found, _, heq⟩ := Option.map_eq_some_iff.1 h
      cases heq
      rfl
    · exact isPlain_scalar h

theorem sound_array {item : Reader Value} (hitem : ∀ s v r, item s = some (v, r) → v.Sound)
    (h : array item s = some (v, r)) : v.Sound := by
  obtain ⟨⟨items, rest⟩, hitems, heq⟩ := Option.map_eq_some_iff.1 h
  cases heq
  exact .array (forall_mem_enclosed hitem hitems)

theorem sound_inlinePair {item : Reader Value} (hitem : ∀ s v r, item s = some (v, r) → v.Sound)
    {pair : KeyPath × Value} (h : inlinePair item s = some (pair, r)) : pair.2.Sound := by
  simp only [inlinePair, Option.bind_eq_bind, Option.bind_eq_some_iff] at h
  obtain ⟨⟨path, rest⟩, _, rest', _, h⟩ := h
  split at h
  · obtain ⟨rest'', _, ⟨v, rest'''⟩, hv, heq⟩ := by
      simpa only [Option.bind_eq_bind, Option.bind_eq_some_iff] using h
    cases heq
    exact hitem _ _ _ hv
  · cases h

theorem sound_inlineTable {item : Reader Value} (hitem : ∀ s v r, item s = some (v, r) → v.Sound)
    (h : inlineTable item s = some (v, r)) : v.Sound := by
  simp only [inlineTable, Option.bind_eq_bind, Option.bind_eq_some_iff] at h
  obtain ⟨⟨pairs, rest⟩, hpairs, entries, hentries, heq⟩ := h
  cases heq
  have hsound := forall_mem_enclosed (P := fun pair => pair.2.Sound)
    (fun s pair r => sound_inlinePair hitem) hpairs
  have hkeyed := (keeps_assignAll hsound [] entries .nil hentries).finished
  exact .table hkeyed.nodup hkeyed.each

theorem sound_element (depth : Nat) (h : element depth s = some (v, r)) : v.Sound := by
  induction depth generalizing s v r with
  | zero => exact .plain (isPlain_plain h)
  | succ depth ih =>
    simp only [element] at h
    split at h
    · exact sound_array (fun _ _ _ => ih) h
    · exact sound_inlineTable (fun _ _ _ => ih) h
    · exact .plain (isPlain_plain h)

/-! ## Documents -/

/-- The value of a statement is sound, if it has one. -/
def Statement.Sound : Statement → Prop
  | .pair _ v => v.Sound
  | _ => True

theorem sound_statementBody {found : Statement} (h : statementBody s = some (found, r)) :
    found.Sound := by
  rw [statementBody.eq_def] at h
  split at h
  · simp only [Option.bind_eq_bind, Option.bind_eq_some_iff] at h
    obtain ⟨⟨path, rest⟩, _, h⟩ := h
    split at h
    · cases h
      trivial
    · cases h
  · obtain ⟨⟨path, rest⟩, _, heq⟩ := Option.map_eq_some_iff.1 h
    cases heq
    trivial
  · cases h
    trivial
  · split_ifs at h
    · cases h
      trivial
    · obtain ⟨⟨⟨path, v⟩, rest⟩, hpair, heq⟩ := Option.map_eq_some_iff.1 h
      cases heq
      simp only [topPair, Option.bind_eq_bind, Option.bind_eq_some_iff] at hpair
      obtain ⟨⟨path', rest'⟩, _, hpair⟩ := hpair
      split at hpair
      · obtain ⟨⟨v', rest''⟩, hv, heq⟩ := Option.bind_eq_some_iff.1 hpair
        cases heq
        exact sound_element deepest hv
      · cases hpair

theorem sound_statement {step : Step Statement} {found : Statement}
    (h : statement s = some (step, r)) (hfinds : step.Finds found) : found.Sound := by
  simp only [statement, Option.bind_eq_bind, Option.bind_eq_some_iff] at h
  obtain ⟨⟨body, rest⟩, hbody, ⟨_, rest'⟩, _, heq⟩ := h
  cases heq
  have hsame : found = body := by
    split_ifs at hfinds <;> simpa [Step.Finds, eq_comm] using hfinds
  rw [hsame]
  exact sound_statementBody hbody

theorem sound_grouped {statements : List Statement} (h : ∀ found ∈ statements, found.Sound) :
    (∀ pair ∈ (grouped statements).1, pair.2.Sound) ∧
      ∀ sec ∈ (grouped statements).2, ∀ pair ∈ sec.body, pair.2.Sound := by
  induction statements with
  | nil => simp [grouped]
  | cons first rest ih =>
    obtain ⟨hbody, hsections⟩ := ih fun found hfound => h found (by simp [hfound])
    have hfirst := h first (by simp)
    cases first with
    | nothing => exact ⟨hbody, hsections⟩
    | pair path v => exact ⟨List.forall_mem_cons.2 ⟨hfirst, hbody⟩, hsections⟩
    | header head => exact ⟨by simp [grouped], List.forall_mem_cons.2 ⟨hbody, hsections⟩⟩

theorem keeps_addTo {sec : Section} (h : ∀ pair ∈ sec.body, pair.2.Sound) : Keeps sec.addTo := by
  have hchangeAt : ∀ path (change : String → Entries → Option Entries),
      (∀ key, Keeps (change key)) → Keeps (changeAt path change) := by
    intro path change hchange es es' hes hat
    obtain ⟨key, _, hwithin⟩ := Option.bind_eq_some_iff.1 hat
    exact keeps_within (hchange key) _ es es' hes hwithin
  obtain ⟨head, body⟩ := sec
  cases head with
  | table path => exact hchangeAt path _ (keeps_openTable h)
  | element path => exact hchangeAt path _ (keeps_openElement h)

/-- In a document that can be read no table has a key twice. -/
theorem keyed_parse {text : String} {t : Table} (h : parse text = some t) :
    Keyed Value.Sound t := by
  simp only [parse, Option.bind_eq_bind, Option.bind_eq_some_iff] at h
  obtain ⟨⟨statements, rest⟩, hstatements, hbuild⟩ := h
  have hsound := forall_mem_all (P := Statement.Sound) (fun _ _ _ _ => sound_statement) hstatements
  obtain ⟨hbody, hsections⟩ := sound_grouped hsound
  simp only [build, Option.bind_eq_bind, Option.bind_eq_some_iff] at hbuild
  obtain ⟨es, hes, es', hes', heq⟩ := hbuild
  cases heq
  have hfold : ∀ sections : List Section, (∀ sec ∈ sections, ∀ pair ∈ sec.body, pair.2.Sound) →
      Keeps fun es => sections.foldlM (fun es s => s.addTo es) es := by
    intro sections
    induction sections with
    | nil =>
      intro _ es es' hes hfold
      cases hfold
      exact hes
    | cons sec rest ih =>
      intro hall es es' hes hfold
      simp only [List.foldlM_cons] at hfold
      obtain ⟨mid, hmid, hrest⟩ := Option.bind_eq_some_iff.1 hfold
      have hadded := keeps_addTo (hall sec (by simp)) es mid hes hmid
      exact ih (fun s hs => hall s (by simp [hs])) mid es' hadded hrest
  exact (hfold _ hsections es es' (keeps_assignAll hbody [] es .nil hes) hes').finished

end WorkerEnv.Toml
