/-
# WorkerEnv.Proofs.Manifest.Arrangement -- the order of keys does not matter

`bindingFields` gives the shape of a table of bindings: the keys of the kinds and of the rules, with
records in lists and in tables of their own. Reading bindings respects it. So two documents with the
same keys of a manifest, in any order and with any others beside them, declare one manifest, and are
accepted or rejected together. What stands under the other keys has to be such that it can be passed
over: at the top level, where everything is held first, it has to be fit for that, and in an
environment it has to be readable.
-/

import WorkerEnv.Declaration.File
import WorkerEnv.Proofs.Manifest.Reading
import WorkerEnv.Proofs.Toml.Arrangement
import WorkerEnv.Proofs.Toml.Soundness

namespace WorkerEnv

open Toml

/-! ## Shapes of bindings -/

/-- The shape of a binding that is a record. -/
def Kind.entryShape (kind : Kind) : Shape :=
  .record ((kind.nameKey :: kind.settingKeys).map (·, .exact))

/-- The shape of all bindings of a kind. -/
def Kind.listShape : Kind → Shape
  | .plainVar => .exact
  | .dataBlob => .exact
  | .textBlob => .exact
  | .wasmModule => .exact
  | kind => .list kind.entryShape

/-- The shape of what stands under the key of a kind. -/
def Kind.shape (kind : Kind) : Shape := kind.listShape.under kind.listKey?

/-- The fields of an import rule with their shapes. -/
def Rule.fields : List (String × Shape) :=
  [("type", .exact), ("globs", .exact), ("fallthrough", .exact)]

/-- The fields of a table of bindings with their shapes. -/
def Bindings.fields : List (String × Shape) :=
  Kind.all.map (fun kind => (kind.key, kind.shape)) ++ [("rules", .list (.record Rule.fields))]

theorem Bindings.map_fst_fields : fields.map (·.1) = fieldKeys := by
  simp [fields, fieldKeys, Function.comp_def]

theorem Bindings.lookup_fields (kind : Kind) : fields.lookup kind.key = some kind.shape := by
  cases kind <;> rfl

theorem Bindings.lookup_fields_rules : fields.lookup "rules" = some (.list (.record Rule.fields)) := rfl

theorem Bindings.forall_mem_fieldKeys {P : String → Prop} (hkinds : ∀ kind : Kind, P kind.key)
    (hrules : P "rules") : ∀ key ∈ fieldKeys, P key := by
  intro key hkey
  rcases List.mem_append.1 hkey with hkey | hkey
  · obtain ⟨kind, -, rfl⟩ := List.mem_map.1 hkey
    exact hkinds kind
  · rw [List.mem_singleton.1 hkey]
    exact hrules

theorem Bindings.mem_fieldKeys_of_lookup {key : String} {s : Shape}
    (h : fields.lookup key = some s) : key ∈ fieldKeys := by
  rw [← map_fst_fields]
  exact List.mem_map.2 ⟨_, mem_of_lookup h, rfl⟩

section Reading

variable {fine : Value → Bool} {f f' : Fields}

theorem lookup_map_exact {keys : List String} {key : String} (h : key ∈ keys) :
    (keys.map fun key => (key, Shape.exact)).lookup key = some .exact := by
  induction keys with
  | nil => cases h
  | cons first rest ih =>
    rw [List.map_cons, List.lookup_cons]
    cases hkey : key == first with
    | true => rfl
    | false =>
      have hne : key ≠ first := by simpa using hkey
      exact ih ((List.mem_cons.1 h).resolve_left hne)

theorem respects_resource (hfine : ∀ v, fine v → v.isReadable) (kind : Kind) :
    Respects fine kind.entryShape (Bindings.resource kind) := by
  have hkeys : ((kind.nameKey :: kind.settingKeys).map (·, Shape.exact)).map (·.1) =
      kind.nameKey :: kind.settingKeys := by
    simp [Function.comp_def]
  have hrecord := respects_record ((kind.nameKey :: kind.settingKeys).map (·, .exact)) hfine
    (g := fun f => do
      let name ← f.orElse kind.nameKey asText ""
      let settings ← kind.settingKeys.mapM fun key => f.optional key asText
      pure (⟨name, settings⟩ : Resource)) ?_
  · rw [hkeys] at hrecord
    exact hrecord
  · intro f f' h
    have hsettings : kind.settingKeys.mapM (fun key => f.optional key asText) =
        kind.settingKeys.mapM fun key => f'.optional key asText := by
      refine mapM_congr_getElem? rfl ?_
      intro i key key' hkey hkey'
      rw [hkey, Option.some.injEq] at hkey'
      subst hkey'
      have hmem := List.mem_cons_of_mem kind.nameKey (List.mem_of_getElem? hkey)
      exact h.optional (lookup_map_exact hmem) (respects_exact asText)
    rw [h.orElse (lookup_map_exact (List.mem_cons_self)) (respects_exact asText), hsettings]

theorem respects_rule (hfine : ∀ v, fine v → v.isReadable) :
    Respects fine (.record Rule.fields) Rule.decode := by
  have htype : Rule.fields.lookup "type" = some .exact := rfl
  have hglobs : Rule.fields.lookup "globs" = some .exact := rfl
  have hfallthrough : Rule.fields.lookup "fallthrough" = some .exact := rfl
  refine respects_record Rule.fields hfine (g := fun f => do
    let type ← f.required "type" asChoice
    let globs ← f.orElse "globs" (listOf asText) []
    let fallthrough ← f.orElse "fallthrough" asFlag false
    pure (⟨ModuleType.ofName type, globs, fallthrough⟩ : Rule)) ?_
  intro f f' h
  rw [h.required htype (respects_exact asChoice),
    h.orElse hglobs (respects_exact (listOf asText)), h.orElse hfallthrough (respects_exact asFlag)]

theorem ofFields_congr (hfine : ∀ v, fine v → v.isReadable)
    (h : AlikeFields fine Bindings.fields f f') : Bindings.ofFields f = Bindings.ofFields f' := by
  have hat : ∀ {α : Type} (kind : Kind) (d : Decoder (List α)), Respects fine kind.listShape d →
      Bindings.at? f kind d = Bindings.at? f' kind d :=
    fun kind d hd => h.nested hfine (Bindings.lookup_fields kind) hd []
  have hresources : ∀ kind, kind.listShape = .list kind.entryShape →
      Bindings.resources f kind = Bindings.resources f' kind := by
    intro kind hshape
    refine hat kind _ ?_
    rw [hshape]
    exact respects_listOf (respects_resource hfine kind)
  have hassets : ∀ kind, kind.listShape = .exact →
      Bindings.assets f kind = Bindings.assets f' kind := by
    intro kind hshape
    refine hat kind _ ?_
    rw [hshape]
    exact respects_exact _
  have hvars := hat .plainVar (tableOf asValue) (respects_exact _)
  have hrules := h.orElse Bindings.lookup_fields_rules (respects_listOf (respects_rule hfine)) []
  rw [Bindings.ofFields, Bindings.ofFields, hvars, hrules, hresources .kvNamespace rfl,
    hresources .durableObject rfl, hresources .r2Bucket rfl, hresources .d1Database rfl,
    hresources .service rfl, hresources .analyticsDataset rfl, hresources .dispatchNamespace rfl,
    hresources .logForwarding rfl, hassets .dataBlob rfl, hassets .textBlob rfl,
    hassets .wasmModule rfl, hresources .unsafeBinding rfl, hresources .queueProducer rfl,
    hresources .sendEmail rfl, hresources .vectorizeIndex rfl, hresources .hyperdrive rfl,
    hresources .mtlsCertificate rfl]

theorem respects_decode (hfine : ∀ v, fine v → v.isReadable) :
    Respects fine (.record Bindings.fields) Bindings.decode := by
  have hrecord := respects_record Bindings.fields hfine fun _ _ => ofFields_congr hfine
  rw [Bindings.map_fst_fields] at hrecord
  exact hrecord

end Reading

namespace Manifest

/-! ## Manifests -/

/-- Two documents with the same keys of a manifest and the same under them, in any order and with any
others beside them. What stands under the others is fine, in environments and at the top level. -/
structure Rearranged (fineInside fineOnTop : Value → Bool) (t t' : Table) : Prop where
  own : ∀ key ∈ ["name", "main", "build"], t.lookup key = t'.lookup key
  environments : Option.Rel ((Shape.map (.record Bindings.fields)).Alike fineInside)
    (t.lookup "env") (t'.lookup "env")
  bindings : ∀ key s, Bindings.fields.lookup key = some s →
    Option.Rel (s.Alike fineOnTop) (t.lookup key) (t'.lookup key)
  others : ∀ e ∈ t, e.1 ∉ ownKeys → Bindings.fields.lookup e.1 = none → fineOnTop e.2
  others' : ∀ e ∈ t', e.1 ∉ ownKeys → Bindings.fields.lookup e.1 = none → fineOnTop e.2

section Documents

variable {fineInside fineOnTop : Value → Bool} {t t' : Table}

theorem Rearranged.symm (h : Rearranged fineInside fineOnTop t t') :
    Rearranged fineInside fineOnTop t' t := by
  have hrel : ∀ (fine : Value → Bool) (s : Shape) (x x' : Option Value),
      Option.Rel (s.Alike fine) x x' → Option.Rel (s.Alike fine) x' x := by
    intro fine s x x' hx
    cases hx with
    | none => exact .none
    | some halike => exact .some halike.symm
  exact ⟨fun key hkey => (h.own key hkey).symm, hrel _ _ _ _ h.environments,
    fun key s hs => hrel _ _ _ _ (h.bindings key s hs), h.others', h.others⟩

theorem ownKeys_disjoint {key : String} {s : Shape} (h : Bindings.fields.lookup key = some s) :
    key ∉ ownKeys := by
  intro hmem
  have hnone : ∀ key ∈ ownKeys, Bindings.fields.lookup key = none := by
    intro key hkey
    simp only [ownKeys, List.mem_cons, List.not_mem_nil, or_false] at hkey
    rcases hkey with rfl | rfl | rfl | rfl <;> rfl
  rw [hnone key hmem] at h
  cases h

/-- The entries that are held: all but the manifest's own. -/
def heldEntries (t : Table) : Table := t.filter fun e => !ownKeys.contains e.1

theorem lookup_heldEntries {key : String} (h : key ∉ ownKeys) :
    (heldEntries t).lookup key = t.lookup key := by
  induction t with
  | nil => rfl
  | cons e rest ih =>
    rw [heldEntries, List.filter_cons, List.lookup_cons]
    cases hkey : key == e.1 with
    | true =>
      have heq : key = e.1 := by simpa using hkey
      rw [if_pos (by simpa [heq] using h), List.lookup_cons, hkey]
    | false =>
      split_ifs
      · rw [List.lookup_cons, hkey]
        exact ih
      · exact ih

/-- What is held in one document can be held in the other. -/
theorem Rearranged.held (h : Rearranged fineInside Value.isHoldable t t')
    (hkeyed : Keyed Value.Sound t') (hall : ∀ e ∈ heldEntries t, e.2.isHoldable) :
    ∀ e ∈ heldEntries t', e.2.isHoldable := by
  intro e he
  obtain ⟨hmem, hown⟩ := List.mem_filter.1 he
  have hnot : e.1 ∉ ownKeys := by simpa using hown
  cases hfield : Bindings.fields.lookup e.1 with
  | none => exact h.others' e hmem hnot hfield
  | some s =>
    have hlookup : t'.lookup e.1 = some e.2 := lookup_of_mem hkeyed.nodup hmem
    have hrel := h.bindings e.1 s hfield
    rw [hlookup] at hrel
    cases hfound : t.lookup e.1 with
    | none =>
      rw [hfound] at hrel
      cases hrel
    | some v =>
      rw [hfound] at hrel
      cases hrel with
      | some halike =>
        have hheld : (e.1, v) ∈ heldEntries t :=
          mem_of_lookup ((lookup_heldEntries hnot).trans hfound)
        exact halike.allLeaves (fun _ hv => hv) (hkeyed.each e hmem) (hall _ hheld)

theorem heldFields_eq (t : Table) :
    heldFields t =
      if (heldEntries t).all (·.2.isHoldable) then some ⟨heldEntries t, .held, false⟩ else none := by
  have hsame : heldFields t = (guard ((heldEntries t).all (·.2.isHoldable)) : Option Unit).bind
      fun _ => some ⟨heldEntries t, .held, false⟩ := rfl
  rw [hsame, guard]
  split_ifs <;> rfl

theorem Rearranged.heldFields (h : Rearranged fineInside Value.isHoldable t t')
    (hkeyed : Keyed Value.Sound t) (hkeyed' : Keyed Value.Sound t') :
    (heldFields t).bind Bindings.ofFields = (Manifest.heldFields t').bind Bindings.ofFields := by
  have hiff : (heldEntries t).all (·.2.isHoldable) = (heldEntries t').all (·.2.isHoldable) := by
    rw [Bool.eq_iff_iff, List.all_eq_true, List.all_eq_true]
    exact ⟨h.held hkeyed', h.symm.held hkeyed⟩
  rw [heldFields_eq, heldFields_eq, hiff]
  split_ifs
  · refine ofFields_congr (fun _ => isReadable_of_isHoldable) ⟨rfl, rfl, ?_⟩
    intro key s hs
    have hnot := ownKeys_disjoint hs
    rw [lookup_heldEntries hnot, lookup_heldEntries hnot]
    exact h.bindings key s hs
  · rfl

/-- Documents that differ in their arrangement declare one manifest. -/
theorem Rearranged.ofTable (h : Rearranged Value.isReadable Value.isHoldable t t')
    (hkeyed : Keyed Value.Sound t) (hkeyed' : Keyed Value.Sound t') : ofTable t = ofTable t' := by
  have hname := h.own "name" (by simp)
  have hmain := h.own "main" (by simp)
  have hbuild := h.own "build" (by simp)
  have hrespects : Respects Value.isReadable (.map (.record Bindings.fields))
      (tableOf Bindings.decode) := respects_tableOf (respects_decode fun _ hv => hv)
  have henvironments : (⟨t, .direct, false⟩ : Fields).orElse "env" (tableOf Bindings.decode) [] =
      (⟨t', .direct, false⟩ : Fields).orElse "env" (tableOf Bindings.decode) [] := by
    have hrel := h.environments
    rw [Fields.orElse, Fields.orElse]
    generalize t.lookup "env" = x at hrel ⊢
    generalize t'.lookup "env" = x' at hrel ⊢
    cases hrel with
    | none => rfl
    | some halike => exact hrespects _ _ _ halike
  rw [Manifest.ofTable, Manifest.ofTable, h.heldFields hkeyed hkeyed', henvironments]
  simp only [Fields.optional, Fields.nested, Fields.orElse, hname, hmain, hbuild]

end Documents

/-! ## Texts -/

/-- The body that the bindings of an environment come to. -/
def bodyOf (m : Manifest) (environment : Option String) (format : Script.Format) :
    Except Problem String :=
  (m.select environment).map fun b => Declaration.body (.ofBindings b) format

/-- Two texts whose documents differ only in their arrangement declare one manifest, or none. They are
accepted together or rejected for the same reason, and every environment comes to the same body. -/
theorem rearranged_account {text text' : String} {t t' : Table} (ht : Toml.parse text = some t)
    (ht' : Toml.parse text' = some t')
    (h : Rearranged Value.isReadable Value.isHoldable t t') (file file' : String) :
    ofText? text = ofText? text' ∧ SameReading (parse text file) (parse text' file') ∧
      ∀ m m', parse text file = .ok m → parse text' file' = .ok m' →
        ∀ environment format, bodyOf m environment format = bodyOf m' environment format := by
  have hsame : ofText? text = ofText? text' := by
    rw [ofText?, ofText?, ht, ht']
    exact h.ofTable (keyed_parse ht) (keyed_parse ht')
  have hreading := sameReading_parse hsame file file'
  refine ⟨hsame, hreading, ?_⟩
  intro m m' hm hm' environment format
  rw [hreading.eq_ok_iff.1 hm] at hm'
  cases hm'
  rfl

/-! ## Two arrangements -/

/-- A document. -/
def plainText : String :=
  "name = \"w\"\n[[hyperdrive]]\nbinding = \"K\"\nid = \"1\"\n" ++
    "[env.e]\nvars.B = 2\nqueues = \x7b\x7d\n"

/-- The same document in another order, with keys that are nobody's. -/
def shuffledText : String :=
  "z = 1\nhyperdrive = [\x7b id = \"1\", x = 2, binding = \"K\" \x7d]\nname = \"w\"\n" ++
    "[env.e]\nqueues = \x7b\x7d\nc = 1\nvars.B = 2\n"

/-- The table of `plainText`. -/
def plainTable : Table :=
  [("name", .string "w"),
    ("hyperdrive", .array [.table [("binding", .string "K"), ("id", .string "1")]]),
    ("env", .table [("e", .table [("vars", .table [("B", .integer 2)]), ("queues", .table [])])])]

/-- The table of `shuffledText`. -/
def shuffledTable : Table :=
  [("z", .integer 1),
    ("hyperdrive",
      .array [.table [("id", .string "1"), ("x", .integer 2), ("binding", .string "K")]]),
    ("name", .string "w"),
    ("env", .table [("e", .table [("queues", .table []), ("c", .integer 1),
      ("vars", .table [("B", .integer 2)])])])]

theorem forall_mem_of_all {test : Value → Bool} {entries : Table}
    (h : entries.all fun e => test e.2) : ∀ e ∈ entries, test e.2 :=
  List.all_eq_true.1 h

theorem rearranged_shuffled :
    Rearranged Value.isReadable Value.isHoldable plainTable shuffledTable where
  own := by
    intro key hkey
    simp only [List.mem_cons, List.not_mem_nil, or_false] at hkey
    rcases hkey with rfl | rfl | rfl <;> rfl
  environments := by
    refine .some (.map rfl ?_)
    intro i e e' he he'
    cases i with
    | succ i => cases he
    | zero =>
      cases he
      cases he'
      refine .of_lookup ?_ (fun e he _ => forall_mem_of_all rfl e he)
        fun e he _ => forall_mem_of_all rfl e he
      rw [Bindings.map_fst_fields]
      refine Bindings.forall_mem_fieldKeys ?_ rfl
      intro kind
      cases kind <;> rfl
  bindings := by
    intro key s hs
    have hkey := Bindings.mem_fieldKeys_of_lookup hs
    by_cases hrecords : key = "hyperdrive"
    · subst hrecords
      cases hs
      refine .some (.list rfl ?_)
      intro i v v' hv hv'
      cases i with
      | succ i => cases hv
      | zero =>
        cases hv
        cases hv'
        refine .of_lookup ?_ (fun e he _ => forall_mem_of_all rfl e he)
          fun e he _ => forall_mem_of_all rfl e he
        intro key hkey
        simp only [Kind.nameKey, Kind.settingKeys, List.map_cons, List.map_nil, List.mem_cons,
          List.not_mem_nil, or_false] at hkey
        rcases hkey with rfl | rfl <;> rfl
    · have hsame : ∀ key ∈ Bindings.fieldKeys, key ≠ "hyperdrive" →
          plainTable.lookup key = shuffledTable.lookup key := by
        refine Bindings.forall_mem_fieldKeys ?_ fun _ => rfl
        intro kind hne
        cases kind <;> first | rfl | exact absurd rfl hne
      rw [hsame key hkey hrecords]
      exact s.rel_refl _
  others e he _ _ := forall_mem_of_all rfl e he
  others' e he _ _ := forall_mem_of_all rfl e he

theorem rearranged_account_shuffled : Toml.parse plainText = some plainTable ∧
    Toml.parse shuffledText = some shuffledTable ∧
    Rearranged Value.isReadable Value.isHoldable plainTable shuffledTable ∧
    ofText? plainText = ofText? shuffledText ∧ (ofText? plainText).isSome := by
  have hplain : Toml.parse plainText = some plainTable := by decide +kernel
  have hshuffled : Toml.parse shuffledText = some shuffledTable := by decide +kernel
  have haccount := rearranged_account hplain hshuffled rearranged_shuffled "" ""
  have hsome : (ofText? plainText).isSome := by
    rw [ofText?, hplain]
    decide +kernel
  exact ⟨hplain, hshuffled, rearranged_shuffled, haccount.1, hsome⟩

/-- Two texts that differ only in their arrangement, with anything under other keys, of which one
declares a manifest and the other none. -/
def Parted (text text' : String) : Prop :=
  ∃ t t', Toml.parse text = some t ∧ Toml.parse text' = some t' ∧
    Rearranged (fun _ => true) (fun _ => true) t t' ∧
    (ofText? text).isSome ∧ ofText? text' = none

theorem rearranged_of_keys {t t' : Table}
    (hkeys : ∀ e ∈ t ++ t', e.1 ∉ "name" :: "main" :: "build" :: Bindings.fieldKeys)
    (henvironments : Option.Rel ((Shape.map (.record Bindings.fields)).Alike fun _ => true)
      (t.lookup "env") (t'.lookup "env")) :
    Rearranged (fun _ => true) (fun _ => true) t t' := by
  have hnone : ∀ key ∈ "name" :: "main" :: "build" :: Bindings.fieldKeys,
      t.lookup key = none ∧ t'.lookup key = none := by
    intro key hkey
    simp only [List.lookup_eq_none_iff, bne_iff_ne]
    constructor
    · rintro e he rfl
      exact hkeys e (List.mem_append_left _ he) hkey
    · rintro e he rfl
      exact hkeys e (List.mem_append_right _ he) hkey
  refine ⟨?_, henvironments, ?_, fun _ _ _ _ => rfl, fun _ _ _ _ => rfl⟩
  · intro key hkey
    have hmem : key ∈ "name" :: "main" :: "build" :: Bindings.fieldKeys := by
      simp only [List.mem_cons, List.not_mem_nil, or_false] at hkey ⊢
      rcases hkey with rfl | rfl | rfl <;> simp
    rw [(hnone key hmem).1, (hnone key hmem).2]
  · intro key s hs
    have hmem := Bindings.mem_fieldKeys_of_lookup hs
    rw [(hnone key (by simp [hmem])).1, (hnone key (by simp [hmem])).2]
    exact .none

/-- Other keys cannot hold just anything. A number that is too great to be held, or in an environment
one that is too great to be read, makes the document one that declares nothing. -/
theorem parted_greatNumber : Parted "" "x = 18446744073709551616" ∧
    Parted "[env.a]" "[env.a]\nx = 340282366920938463463374607431768211456" := by
  constructor
  · have hempty : Toml.parse "" = some [] := by decide +kernel
    have hgreat : Toml.parse "x = 18446744073709551616" =
        some [("x", .integer 18446744073709551616)] := by decide +kernel
    refine ⟨_, _, hempty, hgreat, rearranged_of_keys ?_ .none, ?_, ?_⟩
    · intro e he
      simp only [List.nil_append, List.mem_singleton] at he
      rw [he]
      decide
    · rw [ofText?, hempty]
      rfl
    · rw [ofText?, hgreat]
      rfl
  · have hempty : Toml.parse "[env.a]" = some [("env", .table [("a", .table [])])] := by decide +kernel
    have hgreat : Toml.parse "[env.a]\nx = 340282366920938463463374607431768211456" =
        some [("env", .table [("a", .table [("x", .unreadable)])])] := by decide +kernel
    refine ⟨_, _, hempty, hgreat, rearranged_of_keys ?_ (.some (.map rfl ?_)), ?_, ?_⟩
    · intro e he
      have hkey : e.1 = "env" := by
        rcases List.mem_append.1 he with he | he <;> rw [List.mem_singleton.1 he]
      rw [hkey]
      decide
    · intro i e e' he he'
      cases i with
      | succ i => cases he
      | zero =>
        cases he
        cases he'
        refine .of_lookup ?_ (fun _ _ _ => rfl) fun _ _ _ => rfl
        rw [Bindings.map_fst_fields]
        refine Bindings.forall_mem_fieldKeys ?_ rfl
        intro kind
        cases kind <;> rfl
    · rw [ofText?, hempty]
      rfl
    · rw [ofText?, hgreat]
      rfl

end Manifest

end WorkerEnv
