/-
# WorkerEnv.Proofs.Command.Isolation -- environments know nothing of each other

What an environment comes to is read off its own table, and what the top level comes to is read off
its own keys. So two manifests that agree there, and perhaps nowhere else, come to the same files. A
name that is no environment's selects nothing: the problem lists the names there are, each once since
no key of a document stands twice, and the run stops there, before it has looked for the form of the
entry point.
-/

import WorkerEnv.Command.Run
import WorkerEnv.Proofs.Manifest.Arrangement

namespace WorkerEnv.Manifest

open Toml

variable {t t' : Table} {m m' : Manifest} {name : String}

/-! ## The table of environments -/

/-- The entries of the table of environments. -/
def environmentEntries (t : Table) : Table := ((t.lookup "env").bind Value.asTable?).getD []

/-- The names of the environments, in the order of the document. -/
def environmentKeys (t : Table) : List String := (environmentEntries t).map (·.1)

theorem lookup_mapM {α : Type} {item : Value → Option α} {entries : Table}
    {read : List (String × α)}
    (h : entries.mapM (fun e => (item e.2).map (e.1, ·)) = some read) :
    read.map (·.1) = entries.map (·.1) ∧
      ∀ name, read.lookup name = (entries.lookup name).bind item := by
  induction entries generalizing read with
  | nil =>
    cases h
    simp
  | cons e rest ih =>
    simp only [List.mapM_cons, Option.bind_eq_bind, Option.bind_eq_some_iff,
      Option.map_eq_some_iff] at h
    obtain ⟨_, ⟨a, ha, rfl⟩, more, hmore, heq⟩ := h
    cases heq
    obtain ⟨hkeys, hlookup⟩ := ih hmore
    refine ⟨by rw [List.map_cons, List.map_cons, hkeys], ?_⟩
    intro name
    rw [List.lookup_cons, List.lookup_cons]
    cases name == e.1 with
    | true => exact ha.symm
    | false => exact hlookup name

/-- A manifest has the environments of its table, in their order, each read by itself. -/
theorem environments_of_ofTable (h : ofTable t = some m) :
    m.environmentNames = environmentKeys t ∧
      ∀ name, m.environments.lookup name =
        ((environmentEntries t).lookup name).bind (Bindings.decode .direct) := by
  simp only [ofTable, Option.bind_eq_bind, Option.bind_eq_some_iff] at h
  obtain ⟨_, _, _, _, _, _, bindings, _, environments, henvironments, heq⟩ := h
  cases heq
  rw [Fields.orElse] at henvironments
  rw [environmentKeys, environmentEntries, environmentNames]
  cases henv : t.lookup "env" with
  | none =>
    rw [henv] at henvironments
    cases henvironments
    simp
  | some v =>
    rw [henv] at henvironments
    obtain ⟨entries, hentries, hread⟩ := Option.bind_eq_some_iff.1 henvironments
    rw [Option.bind_some, hentries, Option.getD_some]
    exact lookup_mapM hread

theorem nodup_environmentKeys (h : Keyed Value.Sound t) : (environmentKeys t).Nodup := by
  rw [environmentKeys, environmentEntries]
  cases henv : t.lookup "env" with
  | none => simp
  | some v =>
    have hsound := h.at_key henv
    cases v with
    | table entries => exact hsound.of_table.nodup
    | moment m => simp [Value.asTable?]
    | _ => simp [Value.asTable?]

theorem select_of_entry (h : ofTable t = some m) {v : Value}
    (hv : (environmentEntries t).lookup name = some v) :
    ∃ b, Bindings.decode .direct v = some b ∧ m.select (some name) = .ok b := by
  obtain ⟨hnames, hlookup⟩ := environments_of_ofTable h
  have hfound := hlookup name
  rw [hv, Option.bind_some] at hfound
  cases hread : Bindings.decode .direct v with
  | none =>
    -- Every entry of the table has been read, so the name is there.
    rw [hread] at hfound
    have hmem : name ∈ m.environmentNames := by
      rw [hnames]
      exact List.mem_map.2 ⟨_, mem_of_lookup hv, rfl⟩
    exact absurd hmem (not_mem_keys_of_lookup hfound)
  | some b =>
    rw [hread] at hfound
    exact ⟨b, rfl, by rw [select, hfound]⟩

theorem select_of_not_mem (h : name ∉ m.environmentNames) :
    m.select (some name) = .error (.unknownEnvironment name m.environmentNames) := by
  cases hlookup : m.environments.lookup name with
  | none => rw [select, hlookup]
  | some b => exact absurd (List.mem_map.2 ⟨_, mem_of_lookup hlookup, rfl⟩) h

/-! ## The top level -/

theorem bindings_of_ofTable (h : ofTable t = some m) :
    Bindings.ofFields ⟨heldEntries t, .held, false⟩ = some m.bindings := by
  simp only [ofTable, Option.bind_eq_bind, Option.bind_eq_some_iff] at h
  obtain ⟨_, _, _, _, _, _, bindings, ⟨f, hf, hbindings⟩, environments, _, heq⟩ := h
  cases heq
  rw [heldFields_eq] at hf
  split_ifs at hf
  cases hf
  exact hbindings

/-- The bindings of the top level are read off its own keys. -/
theorem bindings_congr (h : ofTable t = some m) (h' : ofTable t' = some m')
    (hkeys : ∀ key ∈ Bindings.fieldKeys, t.lookup key = t'.lookup key) :
    m.bindings = m'.bindings := by
  have halike : AlikeFields Value.isReadable Bindings.fields ⟨heldEntries t, .held, false⟩
      ⟨heldEntries t', .held, false⟩ := by
    refine ⟨rfl, rfl, ?_⟩
    intro key s hs
    have hnot := ownKeys_disjoint hs
    rw [lookup_heldEntries hnot, lookup_heldEntries hnot,
      hkeys key (Bindings.mem_fieldKeys_of_lookup hs)]
    exact s.rel_refl _
  have hsame := ofFields_congr (fun _ hv => hv) halike
  rw [bindings_of_ofTable h, bindings_of_ofTable h'] at hsame
  exact Option.some.inj hsame

/-! ## Accepted texts -/

theorem ofTable_of_parse {text file : String} (ht : Toml.parse text = some t)
    (h : parse text file = .ok m) : ofTable t = some m := by
  have hof : ofText? text = some m := by
    rw [parse] at h
    cases hm : ofText? text with
    | none =>
      rw [hm] at h
      cases h
    | some m' =>
      rw [hm] at h
      cases hoffence : m'.offence? with
      | none =>
        simp only [hoffence] at h
        cases h
        rfl
      | some offence =>
        simp only [hoffence] at h
        cases h
  rw [ofText?, ht] at hof
  exact hof

/-- The file that an environment of a manifest comes to. -/
def contentOf (m : Manifest) (environment : Option String) (format : Script.Format)
    (time : Instant) : Except Problem String :=
  (m.select environment).map fun b => Declaration.content (.ofBindings b) format time

end WorkerEnv.Manifest

namespace WorkerEnv.Command

open Storage Manifest Generation Toml

/-- An unknown environment is what the run fails on, whatever the form of the entry point. -/
theorem runTypes_unknown {tree : FileTree} {here : Location} {now : Instant} {o : TypesOptions}
    {project : Project} {name : String} (hopen : Project.openAt tree here o.config = .ok project)
    (henvironment : o.environment = some name) (hname : name ∉ project.manifest.environmentNames) :
    runTypes tree here now o =
      .failure tree (.manifest (.unknownEnvironment name project.manifest.environmentNames)) := by
  rw [runTypes, plan, hopen, henvironment]
  simp only [bind, Except.bind, select_of_not_mem hname]

/-- Two accepted manifests that agree in the table of an environment come to the same files for it,
and two that agree in the keys of the top level come to the same files without an environment. A name
that is no environment's is a problem that lists all there are, once and in order; a run then ends with
it, and leaves the tree as it is. -/
theorem isolated_account {text text' file file' : String} {t t' : Table} {m m' : Manifest}
    (ht : Toml.parse text = some t) (ht' : Toml.parse text' = some t')
    (hm : parse text file = .ok m) (hm' : parse text' file' = .ok m') :
    (∀ name v, (environmentEntries t).lookup name = some v →
      (environmentEntries t').lookup name = some v →
      ∀ format time, ∃ content, contentOf m (some name) format time = .ok content ∧
        contentOf m' (some name) format time = .ok content) ∧
    ((∀ key ∈ Bindings.fieldKeys, t.lookup key = t'.lookup key) →
      ∀ format time, ∃ content, contentOf m none format time = .ok content ∧
        contentOf m' none format time = .ok content) ∧
    ∀ name, name ∉ environmentKeys t →
      (environmentKeys t).Nodup ∧
      m.select (some name) = .error (.unknownEnvironment name (environmentKeys t)) ∧
      (Problem.unknownEnvironment name (environmentKeys t)).help? =
        some ("available environments: " ++
          if environmentKeys t = [] then "(none)" else ", ".intercalate (environmentKeys t)) ∧
      ∀ tree here now o, FileTree.readText? tree here o.config = some text →
        o.environment = some name →
        runTypes tree here now o =
          .failure tree (.manifest (.unknownEnvironment name (environmentKeys t))) := by
  have htable := ofTable_of_parse ht hm
  have htable' := ofTable_of_parse ht' hm'
  refine ⟨?_, ?_, ?_⟩
  · intro name v hv hv' format time
    obtain ⟨b, hb, hselect⟩ := select_of_entry htable hv
    obtain ⟨b', hb', hselect'⟩ := select_of_entry htable' hv'
    obtain rfl : b = b' := Option.some.inj (hb.symm.trans hb')
    exact ⟨Declaration.content (.ofBindings b) format time, by rw [contentOf, hselect]; rfl,
      by rw [contentOf, hselect']; rfl⟩
  · intro hkeys format time
    refine ⟨Declaration.content (.ofBindings m.bindings) format time, rfl, ?_⟩
    rw [bindings_congr htable htable' hkeys]
    rfl
  · intro name hname
    have hnames := (environments_of_ofTable htable).1
    have hmem : name ∉ m.environmentNames := by rwa [hnames]
    refine ⟨nodup_environmentKeys (keyed_parse ht), ?_, ?_, ?_⟩
    · rw [select_of_not_mem hmem, hnames]
    · cases environmentKeys t with
      | nil => rfl
      | cons first rest => rfl
    · intro tree here now o hread henvironment
      rw [runTypes_unknown (openAt_of_parse hread hm) henvironment hmem, hnames]

/-- A text with two environments beside bindings of the top level. -/
def crowdedText : String := "[vars]\nA = 1\n[env.f.vars]\nC = 3\n[env.e.vars]\nB = 2\n"

/-- A text with nothing but one of them. -/
def lonelyText : String := "[env.e.vars]\nB = 2\n"

theorem isolated_account_crowded : ∃ t t' m m', Toml.parse crowdedText = some t ∧
    Toml.parse lonelyText = some t' ∧ parse crowdedText "" = .ok m ∧ parse lonelyText "" = .ok m' ∧
    (∀ format time, ∃ content, contentOf m (some "e") format time = .ok content ∧
      contentOf m' (some "e") format time = .ok content) ∧
    m.select (some "g") = .error (.unknownEnvironment "g" ["f", "e"]) := by
  have hread : ∀ text, (parse text "").toOption.isSome → ∃ m, parse text "" = .ok m := by
    intro text hsome
    cases hparse : parse text "" with
    | error problem =>
      rw [hparse] at hsome
      cases hsome
    | ok m => exact ⟨m, rfl⟩
  have ht : Toml.parse crowdedText = some [("vars", .table [("A", .integer 1)]),
      ("env", .table [("f", .table [("vars", .table [("C", .integer 3)])]),
        ("e", .table [("vars", .table [("B", .integer 2)])])])] := by decide +kernel
  have ht' : Toml.parse lonelyText =
      some [("env", .table [("e", .table [("vars", .table [("B", .integer 2)])])])] := by decide +kernel
  obtain ⟨m, hm⟩ := hread crowdedText (by decide +kernel)
  obtain ⟨m', hm'⟩ := hread lonelyText (by decide +kernel)
  have haccount := isolated_account ht ht' hm hm'
  exact ⟨_, _, m, m', ht, ht', hm, hm', haccount.1 "e" _ rfl rfl,
    (haccount.2.2 "g" (by decide +kernel)).2.1⟩

end WorkerEnv.Command
