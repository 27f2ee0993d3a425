/-
# WorkerEnv.Proofs.Declaration.Distinct -- whether a member is declared twice

The checks on a manifest compare the names of its bindings, and the members have the same names,
with one exception: the bindings for log forwarding have one member together, and its name is one
that no check has seen. `count_name` counts every name. So in what is declared for an accepted
manifest a name comes twice in exactly one case, that of `Clashes`.
-/

import WorkerEnv.Declaration.File
import WorkerEnv.Proofs.Declaration.Mapping
import WorkerEnv.Proofs.Manifest.Validation

namespace WorkerEnv.Declaration

open Toml Manifest

/-! ## Names of members -/

mutual

/-- The names of the members that a declaration declares, in order. -/
def Node.memberNames : Node → List String
  | .interface _ members => members.map (·.name)
  | .globals members => members.map (·.name)
  | .ambient _ => []
  | .verbatim _ => []
  | .blocks _ => []
  | .sequence nodes => sequenceMemberNames nodes

/-- `Node.memberNames` of declarations in order. -/
def sequenceMemberNames : List Node → List String
  | [] => []
  | n :: ns => n.memberNames ++ sequenceMemberNames ns

end

theorem memberNames_environment (members : List Member) (format : Script.Format) :
    (environment members format).memberNames = members.map (·.name) := by
  cases format with
  | modules => rfl
  | serviceWorker => simp [environment, Node.memberNames, sequenceMemberNames]

/-! ## Counting names -/

/-- The names of the bindings that have a member each. -/
def ownNames (pairs : List (Kind × String)) : List String :=
  (pairs.filter (·.1 ≠ .logForwarding)).map (·.2)

section Count

variable {vars : Table} {pairs : List (Kind × String)} {members : List Member}

theorem ownNames_cons {kind : Kind} (hkind : kind ≠ .logForwarding) (name : String)
    (pairs : List (Kind × String)) : ownNames ((kind, name) :: pairs) = name :: ownNames pairs := by
  rw [ownNames, List.filter_cons_of_pos (by simpa using hkind), List.map_cons, ownNames]

theorem ownNames_append_group (names : List String) (pairs : List (Kind × String)) :
    ownNames (names.map (Kind.logForwarding, ·) ++ pairs) = ownNames pairs := by
  simp [ownNames, List.filter_append]

/-- A name is that of as many members as bindings, but for the member for log forwarding. -/
theorem Becomes.count_name (h : Becomes vars pairs members) (name : String) :
    (members.map (·.name)).count name = (ownNames pairs).count name +
      if name = logMember.name ∧ ∃ p ∈ pairs, p.1 = .logForwarding then 1 else 0 := by
  induction h with
  | nil => simp [ownNames]
  | @uniform vars pairs members kind type htype own hrest ih =>
    have hkind : kind ≠ .logForwarding := by
      rintro rfl
      cases htype
    rw [ownNames_cons hkind, List.map_cons, List.count_cons, List.count_cons, ih]
    simp only [List.exists_mem_cons_iff, hkind, false_or]
    omega
  | @pinned vars pairs members own v hrest ih =>
    rw [ownNames_cons (by decide), List.map_cons, List.count_cons, List.count_cons, ih]
    simp only [List.exists_mem_cons_iff, reduceCtorEq, false_or]
    omega
  | @joint vars pairs members names hsome hlast hrest ih =>
    have hnone : ¬ ∃ p ∈ pairs, p.1 = .logForwarding := by
      rintro ⟨p, hp, hkind⟩
      exact hlast p hp hkind
    have hhere : ∃ p ∈ names.map (Kind.logForwarding, ·) ++ pairs, p.1 = .logForwarding := by
      obtain ⟨first, hfirst⟩ := List.exists_mem_of_ne_nil names hsome
      exact ⟨(.logForwarding, first), by simp [hfirst], rfl⟩
    have hlater : ¬ (name = logMember.name ∧ ∃ p ∈ pairs, p.1 = .logForwarding) :=
      fun h => hnone h.2
    rw [ownNames_append_group, List.map_cons, List.count_cons, ih, if_neg hlater, Nat.add_zero]
    simp only [hhere, and_true, beq_iff_eq, @eq_comm _ name]

theorem Becomes.mem_names (h : Becomes vars pairs members) {name : String}
    (hname : name ∈ members.map (·.name)) : name ∈ ownNames pairs ∨ name = logMember.name := by
  by_contra hnot
  obtain ⟨hown, hlog⟩ := not_or.1 hnot
  have hcount := h.count_name name
  rw [List.count_eq_zero.2 hown, if_neg (fun h => hlog h.1)] at hcount
  exact List.count_eq_zero.1 hcount hname

end Count

/-! ## Accepted manifests -/

/-- There are bindings for log forwarding, and the name of their member is that of a binding of
another kind. -/
structure Clashes (b : Bindings) : Prop where
  forwards : b.names .logForwarding ≠ []
  taken : ∃ kind, kind ≠ .logForwarding ∧ logMember.name ∈ b.names kind

theorem mem_pairs {b : Bindings} {p : Kind × String} : p ∈ b.pairs ↔ p.2 ∈ b.names p.1 := by
  have hall : p ∈ b.pairs ↔ p.1 ∈ Kind.all ∧ p.2 ∈ b.names p.1 := mem_pairsOf
  rwa [and_iff_right (Kind.mem_all p.1)] at hall

theorem exists_forwarding_iff {b : Bindings} :
    (∃ p ∈ b.pairs, p.1 = .logForwarding) ↔ b.names .logForwarding ≠ [] := by
  constructor
  · rintro ⟨⟨kind, name⟩, hp, rfl⟩
    exact List.ne_nil_of_mem (mem_pairs.1 hp)
  · intro hsome
    obtain ⟨name, hname⟩ := List.exists_mem_of_ne_nil _ hsome
    exact ⟨(.logForwarding, name), mem_pairs.2 hname, rfl⟩

theorem mem_ownNames {b : Bindings} {name : String} :
    name ∈ ownNames b.pairs ↔ ∃ kind, kind ≠ .logForwarding ∧ name ∈ b.names kind := by
  simp only [ownNames, List.mem_map, List.mem_filter, decide_eq_true_eq, mem_pairs]
  constructor
  · rintro ⟨⟨kind, name⟩, ⟨hname, hkind⟩, rfl⟩
    exact ⟨kind, hkind, hname⟩
  · rintro ⟨kind, hkind, hname⟩
    exact ⟨(kind, name), ⟨hname, hkind⟩, rfl⟩

theorem count_ownNames_le {b : Bindings} (h : Clean b) (name : String) :
    (ownNames b.pairs).count name ≤ 1 := by
  have hsub : (ownNames b.pairs).Sublist (b.pairs.map (·.2)) := List.filter_sublist.map _
  exact List.nodup_iff_count_le_one.1 (h.2.sublist hsub) name

/-- How often a name comes among the members that clean bindings become. -/
theorem count_members (b : Bindings) (name : String) :
    ((Definitions.ofBindings b).members.map (·.name)).count name = (ownNames b.pairs).count name +
      if name = logMember.name ∧ b.names .logForwarding ≠ [] then 1 else 0 := by
  have hcount := (becomes_ofBindings b).count_name name
  simpa only [exists_forwarding_iff] using hcount

theorem count_members_of_clashes {b : Bindings} (hclean : Clean b) (h : Clashes b) :
    ((Definitions.ofBindings b).members.map (·.name)).count logMember.name = 2 := by
  have hle := count_ownNames_le hclean logMember.name
  have hpos := List.count_pos_iff.2 (mem_ownNames.2 h.taken)
  rw [count_members, if_pos ⟨rfl, h.forwards⟩]
  omega

theorem clashes_of_two_le_count {b : Bindings} (hclean : Clean b) {name : String}
    (h : 2 ≤ ((Definitions.ofBindings b).members.map (·.name)).count name) :
    Clashes b ∧ name = logMember.name := by
  have hle := count_ownNames_le hclean name
  rw [count_members] at h
  split_ifs at h with hlog
  · obtain ⟨rfl, hforwards⟩ := hlog
    have hpos : 0 < (ownNames b.pairs).count logMember.name := by omega
    exact ⟨⟨hforwards, mem_ownNames.1 (List.count_pos_iff.1 hpos)⟩, rfl⟩
  · omega

theorem nodup_members_iff {b : Bindings} (hclean : Clean b) :
    ((Definitions.ofBindings b).members.map (·.name)).Nodup ↔ ¬ Clashes b := by
  rw [List.nodup_iff_count_le_one]
  constructor
  · intro hle hclash
    have htwo := count_members_of_clashes hclean hclash
    have hone := hle logMember.name
    omega
  · intro hnot name
    by_contra hlt
    exact hnot (clashes_of_two_le_count hclean (Nat.lt_of_not_le hlt)).1

theorem ne_empty_of_mem_members {b : Bindings} (hclean : Clean b) {name : String}
    (h : name ∈ (Definitions.ofBindings b).members.map (·.name)) : name ≠ "" := by
  rcases (becomes_ofBindings b).mem_names h with hown | rfl
  · obtain ⟨p, hp, rfl⟩ := List.mem_map.1 hown
    exact hclean.1 p (List.mem_filter.1 hp).1
  · decide

/-- What is declared for an accepted manifest, in either form, declares a member for every name that
is in use, none of them empty, and no two for one name, unless a binding has the name of the member
for log forwarding; then that name, and no other, is declared twice. -/
theorem memberNames_account {text file : String} {m : Manifest}
    (hparse : Manifest.parse text file = .ok m) {selection : Option String} {b : Bindings}
    (hselect : m.select selection = .ok b) (format : Script.Format) :
    let d := Definitions.ofBindings b
    let names := (environment d.members format).memberNames
    names = d.members.map (·.name) ∧ "" ∉ names ∧ (names.Nodup ↔ ¬ Clashes b) ∧
      ∀ name, 2 ≤ names.count name →
        Clashes b ∧ name = logMember.name ∧ names.count name = 2 := by
  have hclean := clean_of_select hparse hselect
  intro d names
  have hnames : names = d.members.map (·.name) := memberNames_environment _ _
  rw [hnames]
  refine ⟨rfl, fun hempty => ne_empty_of_mem_members hclean hempty rfl, nodup_members_iff hclean, ?_⟩
  intro name htwo
  obtain ⟨hclash, rfl⟩ := clashes_of_two_le_count hclean htwo
  exact ⟨hclash, rfl, count_members_of_clashes hclean hclash⟩

/-- A manifest whose environment has bindings for log forwarding next to others. -/
def forwarding : String :=
  "[vars]\nA = 1\n[[env.live.logfwdr.bindings]]\nname = \"A\"\n[env.live.vars]\nB = 2\n"

/-- A manifest in which a binding has the name of the member for log forwarding. -/
def clashing : String :=
  "[[kv_namespaces]]\nbinding = \"LOGFWDR_SCHEMA\"\n[[logfwdr.bindings]]\nname = \"LOGS\"\n"

/-- The names of the members for a manifest, if it is accepted and the environment is there. -/
def namesOf? (text : String) (selection : Option String) : Option (List String) :=
  match Manifest.parse text "wrangler.toml" with
  | .error _ => none
  | .ok m =>
    match m.select selection with
    | .error _ => none
    | .ok b => some ((Definitions.ofBindings b).members.map (·.name))

theorem exists_of_namesOf? {text : String} {selection : Option String} {names : List String}
    (h : namesOf? text selection = some names) :
    ∃ m b, Manifest.parse text "wrangler.toml" = .ok m ∧ m.select selection = .ok b ∧
      (Definitions.ofBindings b).members.map (·.name) = names := by
  rw [namesOf?] at h
  split at h
  · cases h
  · next m hparse =>
    split at h
    · cases h
    · next b hselect => exact ⟨m, b, hparse, hselect, Option.some.inj h⟩

theorem memberNames_account_forwarding : ∃ m b,
    Manifest.parse forwarding "wrangler.toml" = .ok m ∧ m.select (some "live") = .ok b ∧
      "" ∉ (environment (Definitions.ofBindings b).members .serviceWorker).memberNames ∧
      ((environment (Definitions.ofBindings b).members .serviceWorker).memberNames.Nodup ↔
        ¬ Clashes b) := by
  have hnames : namesOf? forwarding (some "live") = some ["B", "LOGFWDR_SCHEMA"] := by
    decide +kernel
  obtain ⟨m, b, hparse, hselect, -⟩ := exists_of_namesOf? hnames
  have haccount := memberNames_account hparse hselect .serviceWorker
  exact ⟨m, b, hparse, hselect, haccount.2.1, haccount.2.2.1⟩

/-- The checks accept the manifest, and a member is declared twice. -/
theorem not_nodup_clashing : ∃ m b,
    Manifest.parse clashing "wrangler.toml" = .ok m ∧ m.select none = .ok b ∧
      ∀ format, ¬ (environment (Definitions.ofBindings b).members format).memberNames.Nodup := by
  have hnames : namesOf? clashing none = some ["LOGFWDR_SCHEMA", "LOGFWDR_SCHEMA"] := by
    decide +kernel
  obtain ⟨m, b, hparse, hselect, hb⟩ := exists_of_namesOf? hnames
  refine ⟨m, b, hparse, hselect, ?_⟩
  intro format
  rw [memberNames_environment, hb]
  decide

end WorkerEnv.Declaration
