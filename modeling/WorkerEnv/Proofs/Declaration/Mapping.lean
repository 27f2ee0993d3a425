/-
# WorkerEnv.Proofs.Declaration.Mapping -- the definitions against the bindings they are made of

`Becomes` reads a sequence of bindings from left to right and says which members stand for it: one
for each binding, with the same name and the type of its kind, or of its value; and one for all
bindings for log forwarding. `Imported` says which module declaration stands for a glob of a rule.
Both allow one result only, so whatever else a table of bindings holds has no influence.
-/

import Mathlib.Data.List.Forall2
import Mathlib.Data.List.TakeWhile
import WorkerEnv.Declaration.Definitions

namespace WorkerEnv.Declaration

open Toml

/-! ## Members -/

/-- The member that stands for all bindings for log forwarding. -/
def logMember : Member := ⟨"LOGFWDR_SCHEMA", "any"⟩

/-- The members that stand for bindings in order. The table holds the variables among them that are
still to come, so each variable is typed by its own value. -/
inductive Becomes : Table → List (Kind × String) → List Member → Prop where
  | nil : Becomes [] [] []
  /-- A binding has the type of its kind. -/
  | uniform {vars : Table} {pairs : List (Kind × String)} {members : List Member}
      {kind : Kind} {type : String} (htype : typing kind = .uniform type) (name : String)
      (hrest : Becomes vars pairs members) :
      Becomes vars ((kind, name) :: pairs) (⟨name, type⟩ :: members)
  /-- A variable has the type of its value. -/
  | pinned {vars : Table} {pairs : List (Kind × String)} {members : List Member}
      (name : String) (v : Value) (hrest : Becomes vars pairs members) :
      Becomes ((name, v) :: vars) ((.plainVar, name) :: pairs) (⟨name, pinnedType v⟩ :: members)
  /-- The bindings for log forwarding stand together and have one member. -/
  | joint {vars : Table} {pairs : List (Kind × String)} {members : List Member}
      {names : List String} (hsome : names ≠ [])
      (hlast : ∀ p ∈ pairs, p.1 ≠ .logForwarding) (hrest : Becomes vars pairs members) :
      Becomes vars (names.map (Kind.logForwarding, ·) ++ pairs) (logMember :: members)

theorem typing_eq_ofValue_iff {kind : Kind} : typing kind = .ofValue ↔ kind = .plainVar := by
  cases kind <;> simp [typing]

theorem typing_eq_joint_iff {kind : Kind} {name type : String} :
    typing kind = .joint name type ↔ kind = .logForwarding ∧ ⟨name, type⟩ = logMember := by
  cases kind <;> simp [typing, logMember, eq_comm]

section Segments

variable {vars : Table} {pairs : List (Kind × String)} {members : List Member}

theorem Becomes.uniforms {kind : Kind} {type : String} (htype : typing kind = .uniform type)
    (names : List String) (hrest : Becomes vars pairs members) :
    Becomes vars (names.map (kind, ·) ++ pairs) (names.map (⟨·, type⟩) ++ members) := by
  induction names with
  | nil => exact hrest
  | cons name names ih => exact .uniform htype name ih

theorem Becomes.variables (more : Table) (hrest : Becomes vars pairs members) :
    Becomes (more ++ vars) (more.map (fun v => (.plainVar, v.1)) ++ pairs)
      (more.map (fun v => ⟨v.1, pinnedType v.2⟩) ++ members) := by
  induction more with
  | nil => exact hrest
  | cons v more ih => exact .pinned v.1 v.2 ih

end Segments

/-- The bindings of some kinds, in the order of the kinds. -/
def pairsOf (b : Bindings) (kinds : List Kind) : List (Kind × String) :=
  kinds.flatMap fun kind => (b.names kind).map (kind, ·)

/-- The variables with their values, if their kind is one of these. -/
def varsOf (b : Bindings) (kinds : List Kind) : Table :=
  kinds.flatMap fun kind => if kind = .plainVar then b.vars else []

theorem mem_pairsOf {b : Bindings} {kinds : List Kind} {p : Kind × String} :
    p ∈ pairsOf b kinds ↔ p.1 ∈ kinds ∧ p.2 ∈ b.names p.1 := by
  obtain ⟨kind, name⟩ := p
  simp [pairsOf, List.mem_flatMap]

/-- What becomes of the bindings of some kinds. The induction is on the kinds; that none comes twice
is needed for the kind whose bindings have one member together. -/
theorem becomes_membersOf (b : Bindings) {kinds : List Kind} (hnodup : kinds.Nodup) :
    Becomes (varsOf b kinds) (pairsOf b kinds) (kinds.flatMap (Definitions.membersOf b)) := by
  induction kinds with
  | nil => exact .nil
  | cons kind kinds ih =>
    obtain ⟨hnew, hnodup⟩ := List.nodup_cons.1 hnodup
    have hrest := ih hnodup
    cases htype : typing kind with
    | uniform type =>
      have hvars : varsOf b (kind :: kinds) = varsOf b kinds := by
        have hkind : kind ≠ .plainVar := by
          rintro rfl
          cases htype
        rw [varsOf, List.flatMap_cons, if_neg hkind, List.nil_append, varsOf]
      have hmembers : Definitions.membersOf b kind = (b.names kind).map (⟨·, type⟩) := by
        rw [Definitions.membersOf, htype]
      rw [hvars, pairsOf, List.flatMap_cons, List.flatMap_cons, hmembers]
      exact .uniforms htype _ hrest
    | ofValue =>
      obtain rfl := typing_eq_ofValue_iff.1 htype
      have hpairs : (b.names .plainVar).map (Kind.plainVar, ·) =
          b.vars.map fun v => (Kind.plainVar, v.1) := by
        rw [Bindings.names, List.map_map]
        rfl
      rw [pairsOf, varsOf, List.flatMap_cons, List.flatMap_cons, List.flatMap_cons, hpairs]
      exact hrest.variables b.vars
    | joint name type =>
      obtain ⟨rfl, hmember⟩ := typing_eq_joint_iff.1 htype
      have hmembers : Definitions.membersOf b .logForwarding =
          if (b.names .logForwarding).isEmpty then [] else [logMember] := by
        rw [Definitions.membersOf, htype, ← hmember]
      rw [pairsOf, varsOf, List.flatMap_cons, List.flatMap_cons, List.flatMap_cons, hmembers]
      cases hnames : b.names .logForwarding with
      | nil => exact hrest
      | cons first rest =>
        refine .joint (by simp) ?_ hrest
        intro p hp hkind
        exact hnew (hkind ▸ (mem_pairsOf.1 hp).1)

theorem becomes_ofBindings (b : Bindings) :
    Becomes b.vars b.pairs (Definitions.ofBindings b).members := by
  have hvars : varsOf b Kind.all = b.vars := by simp [varsOf, Kind.all]
  have hall := becomes_membersOf b Kind.nodup_all
  rwa [hvars] at hall

/-! ## One result -/

section Unique

variable {vars : Table} {pairs : List (Kind × String)} {members members' : List Member}

/-- What the first binding can become. -/
theorem Becomes.cons_cases {kind : Kind} {name : String}
    (h : Becomes vars ((kind, name) :: pairs) members) :
    (∃ type rest, typing kind = .uniform type ∧ members = ⟨name, type⟩ :: rest ∧
      Becomes vars pairs rest) ∨
    (∃ v more rest, kind = .plainVar ∧ vars = (name, v) :: more ∧
      members = ⟨name, pinnedType v⟩ :: rest ∧ Becomes more pairs rest) ∨
    (∃ (names : List String) (after : List (Kind × String)) (rest : List Member),
      kind = .logForwarding ∧
      pairs = names.map (Kind.logForwarding, ·) ++ after ∧ (∀ p ∈ after, p.1 ≠ .logForwarding) ∧
      members = logMember :: rest ∧ Becomes vars after rest) := by
  generalize hall : (kind, name) :: pairs = all at h
  cases h with
  | nil => cases hall
  | uniform htype _ hrest =>
    cases hall
    exact Or.inl ⟨_, _, htype, rfl, hrest⟩
  | pinned _ v hrest =>
    cases hall
    exact Or.inr (Or.inl ⟨v, _, _, rfl, rfl, rfl, hrest⟩)
  | @joint _ after rest names hsome hlast hrest =>
    cases names with
    | nil => exact absurd rfl hsome
    | cons first names =>
      cases hall
      exact Or.inr (Or.inr ⟨names, after, rest, rfl, rfl, hlast, rfl, hrest⟩)

/-- No binding is without a member, and no member without a binding. -/
theorem Becomes.eq_nil_iff (h : Becomes vars pairs members) : members = [] ↔ pairs = [] := by
  cases h with
  | nil => exact iff_of_true rfl rfl
  | uniform _ _ _ => simp
  | pinned _ _ _ => simp
  | joint hsome _ _ => simp [hsome]

/-- What comes after the bindings for log forwarding does not depend on how many of them are left. -/
theorem after_eq {names names' : List String} {after after' : List (Kind × String)}
    (heq : names.map (Kind.logForwarding, ·) ++ after =
      names'.map (Kind.logForwarding, ·) ++ after')
    (hlast : ∀ p ∈ after, p.1 ≠ .logForwarding) (hlast' : ∀ p ∈ after', p.1 ≠ .logForwarding) :
    after = after' := by
  have hfilter : ∀ (names : List String) {after : List (Kind × String)},
      (∀ p ∈ after, p.1 ≠ .logForwarding) →
        (names.map (Kind.logForwarding, ·) ++ after).filter (·.1 ≠ .logForwarding) = after := by
    intro names after hlast
    have hnames : (names.map (Kind.logForwarding, ·)).filter (·.1 ≠ .logForwarding) = [] := by
      simp
    have hafter : after.filter (·.1 ≠ .logForwarding) = after :=
      List.filter_eq_self.2 fun p hp => decide_eq_true (hlast p hp)
    rw [List.filter_append, hnames, hafter, List.nil_append]
  rw [← hfilter names hlast, heq, hfilter names' hlast']

theorem Becomes.unique (h : Becomes vars pairs members) (h' : Becomes vars pairs members') :
    members = members' := by
  induction h generalizing members' with
  | nil => exact (h'.eq_nil_iff.2 rfl).symm
  | uniform htype name hrest ih =>
    rcases h'.cons_cases with ⟨type, rest, htype', rfl, hrest'⟩ | ⟨_, _, _, rfl, -⟩ |
      ⟨_, _, _, rfl, -⟩
    · obtain rfl := Typing.uniform.inj (htype.symm.trans htype')
      rw [ih hrest']
    · cases htype
    · cases htype
  | pinned name v hrest ih =>
    rcases h'.cons_cases with ⟨_, _, htype, -⟩ | ⟨v', more, rest, -, hvars, rfl, hrest'⟩ |
      ⟨_, _, _, hkind, -⟩
    · cases htype
    · cases hvars
      rw [ih hrest']
    · cases hkind
  | @joint vars pairs members names hsome hlast hrest ih =>
    cases names with
    | nil => exact absurd rfl hsome
    | cons first names =>
      rcases h'.cons_cases with ⟨_, _, htype, -⟩ | ⟨_, _, _, hkind, -⟩ |
        ⟨names', after, rest, -, hpairs, hlast', rfl, hrest'⟩
      · cases htype
      · cases hkind
      · obtain rfl := after_eq hpairs hlast hlast'
        rw [ih hrest']

end Unique

/-! ## Module declarations -/

/-- The module types that have a value to import. -/
def importedTypes : List ModuleType := [.text, .data, .compiledWasm]

/-- The globs of the rules for such modules in order, each with the type of its rule. -/
def imports (b : Bindings) : List (ModuleType × String) :=
  (b.rules.filter (·.type ∈ importedTypes)).flatMap fun rule => rule.globs.map (rule.type, ·)

/-- The text after the last dot of a glob, or the whole glob if it has none. -/
def IsExtension (glob extension : String) : Prop :=
  '.' ∉ extension.toList ∧ (glob = extension ∨ ∃ before, glob = before ++ "." ++ extension)

/-- A module declaration is the one for a glob of a rule of this type. -/
structure Imported (i : ModuleType × String) (m : AmbientModule) : Prop where
  pattern : ∃ extension, IsExtension i.2 extension ∧ m.pattern = "*." ++ extension
  type : importType? i.1 = some m.type

theorem IsExtension.reverse_eq {glob extension : String} (h : IsExtension glob extension) :
    extension.toList.reverse = glob.toList.reverse.takeWhile (· ≠ '.') := by
  obtain ⟨hdot, hglob⟩ := h
  have hall : ∀ c ∈ extension.toList.reverse, decide (c ≠ '.') := by
    intro c hc
    refine decide_eq_true ?_
    rintro rfl
    exact hdot (List.mem_reverse.1 hc)
  rcases hglob with rfl | ⟨before, rfl⟩
  · rw [List.takeWhile_eq_self_iff.2 hall]
  · have hsplit : (before ++ "." ++ extension).toList.reverse =
        extension.toList.reverse ++ '.' :: before.toList.reverse := by
      simp [String.toList_append]
    rw [hsplit, List.takeWhile_append_of_pos hall, List.takeWhile_cons_of_neg (by simp),
      List.append_nil]

theorem IsExtension.unique {glob extension extension' : String} (h : IsExtension glob extension)
    (h' : IsExtension glob extension') : extension = extension' := by
  have heq := h.reverse_eq.trans h'.reverse_eq.symm
  exact String.toList_inj.1 (List.reverse_injective heq)

theorem isExtension_suffix (glob : String) : IsExtension glob (Definitions.suffix glob) := by
  rw [Definitions.suffix]
  cases hcut : Text.cutLast? ['.'] glob.toList with
  | some cut =>
    obtain ⟨before, rest⟩ := cut
    refine ⟨?_, Or.inr ⟨String.ofList before, ?_⟩⟩
    · rw [String.toList_ofList]
      exact Text.notMem_of_cutLast?_singleton hcut
    · apply String.toList_inj.1
      rw [Text.eq_of_cutLast? hcut]
      simp [String.toList_append]
  | none =>
    refine ⟨?_, Or.inl rfl⟩
    intro hdot
    obtain ⟨before, rest, hglob⟩ := List.append_of_mem hdot
    have hsome := Text.cutLast?_isSome before ['.'] rest
    rw [List.append_assoc, List.singleton_append, ← hglob, hcut] at hsome
    cases hsome

theorem imported_unique : Relator.RightUnique Imported := by
  intro i m m' h h'
  obtain ⟨⟨extension, hextension, hpattern⟩, htype⟩ := h
  obtain ⟨⟨extension', hextension', hpattern'⟩, htype'⟩ := h'
  rw [hextension.unique hextension', ← hpattern'] at hpattern
  have htypes := Option.some.inj (htype.symm.trans htype')
  cases m
  cases m'
  exact congrArg₂ AmbientModule.mk hpattern htypes

theorem importType?_isSome_iff {type : ModuleType} :
    (importType? type).isSome ↔ type ∈ importedTypes := by
  cases type <;> simp [importType?, importedTypes]

theorem imported_modulesOf (rule : Rule) :
    List.Forall₂ Imported
      (if rule.type ∈ importedTypes then rule.globs.map (rule.type, ·) else [])
      (Definitions.modulesOf rule) := by
  rw [Definitions.modulesOf]
  cases htype : importType? rule.type with
  | none =>
    rw [if_neg (by simp [← importType?_isSome_iff, htype])]
    exact .nil
  | some type =>
    rw [if_pos (by simp [← importType?_isSome_iff, htype]), List.forall₂_map_left_iff,
      List.forall₂_map_right_iff, List.forall₂_same]
    intro glob _
    exact ⟨⟨_, isExtension_suffix glob, rfl⟩, htype⟩

theorem imported_ofBindings (b : Bindings) :
    List.Forall₂ Imported (imports b) (Definitions.ofBindings b).modules := by
  rw [imports, Definitions.ofBindings]
  induction b.rules with
  | nil => exact .nil
  | cons rule rules ih =>
    have hrule := imported_modulesOf rule
    rw [List.flatMap_cons]
    by_cases htype : rule.type ∈ importedTypes
    · rw [if_pos htype] at hrule
      rw [List.filter_cons_of_pos (by simpa using htype), List.flatMap_cons]
      exact List.rel_append hrule ih
    · rw [if_neg htype] at hrule
      rw [List.filter_cons_of_neg (by simpa using htype), ← List.nil_append (List.flatMap _ _)]
      exact List.rel_append hrule ih

/-! ## The account of the definitions -/

theorem imports_eq_nil_iff {b : Bindings} :
    imports b = [] ↔ ∀ rule ∈ b.rules, rule.type ∈ importedTypes → rule.globs = [] := by
  simp [imports, List.flatMap_eq_nil_iff]

theorem isEmpty_ofBindings (b : Bindings) :
    (Definitions.ofBindings b).isEmpty ↔
      b.pairs = [] ∧ ∀ rule ∈ b.rules, rule.type ∈ importedTypes → rule.globs = [] := by
  rw [Definitions.isEmpty, Bool.and_eq_true, List.isEmpty_iff, List.isEmpty_iff,
    (becomes_ofBindings b).eq_nil_iff, ← imports_eq_nil_iff]
  have hlength := (imported_ofBindings b).length_eq
  rw [← List.length_eq_zero_iff (l := imports b), hlength, List.length_eq_zero_iff]

/-- The members stand for the bindings in order, the module declarations for the globs of the rules
that have something to import; so there is nothing to declare only if there are none of both, and
nothing else in the bindings has any influence. -/
theorem ofBindings_account (b : Bindings) :
    Becomes b.vars b.pairs (Definitions.ofBindings b).members ∧
    List.Forall₂ Imported (imports b) (Definitions.ofBindings b).modules ∧
    ((Definitions.ofBindings b).isEmpty ↔
      b.pairs = [] ∧ ∀ rule ∈ b.rules, rule.type ∈ importedTypes → rule.globs = []) ∧
    ∀ b', b'.pairs = b.pairs → b'.vars = b.vars → imports b' = imports b →
      Definitions.ofBindings b' = Definitions.ofBindings b := by
  refine ⟨becomes_ofBindings b, imported_ofBindings b, isEmpty_ofBindings b, ?_⟩
  intro b' hpairs hvars himports
  have hmembers := becomes_ofBindings b'
  rw [hpairs, hvars] at hmembers
  have hmodules := imported_ofBindings b'
  rw [himports] at hmodules
  -- Both readings have one result, so what they read decides it.
  exact congrArg₂ Definitions.mk (hmembers.unique (becomes_ofBindings b))
    (List.right_unique_forall₂' imported_unique hmodules (imported_ofBindings b))

/-- Bindings of several kinds, with a rule. -/
def mixedBindings : Bindings where
  kvNamespaces := [⟨"CACHE", [some "1", none]⟩]
  vars := [("MODE", .string "dev")]
  logForwarding := [⟨"LOGS", [none]⟩, ⟨"MORE", [some "a"]⟩]
  dataBlobs := [("LOGO", "logo.png")]
  rules := [⟨.text, ["*.txt", "README"], false⟩]

/-- The same bindings with other settings and paths, and with a rule for code. -/
def variedBindings : Bindings where
  kvNamespaces := [⟨"CACHE", [none, some "2"]⟩]
  vars := [("MODE", .string "dev")]
  logForwarding := [⟨"LOGS", [some "b"]⟩, ⟨"MORE", [none]⟩]
  dataBlobs := [("LOGO", "other.png")]
  rules := [⟨.esModule, ["*.mjs"], false⟩, ⟨.text, ["*.txt", "README"], true⟩]

theorem ofBindings_account_varied : variedBindings.pairs = mixedBindings.pairs ∧
    variedBindings.vars = mixedBindings.vars ∧ imports variedBindings = imports mixedBindings ∧
    Definitions.ofBindings variedBindings = Definitions.ofBindings mixedBindings := by
  have hpairs : variedBindings.pairs = mixedBindings.pairs := by decide
  have himports : imports variedBindings = imports mixedBindings := by decide
  have haccount := ofBindings_account mixedBindings
  exact ⟨hpairs, rfl, himports, haccount.2.2.2 variedBindings hpairs rfl himports⟩

end WorkerEnv.Declaration
