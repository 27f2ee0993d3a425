/-
# WorkerEnv.Proofs.Command.Listing -- what a check lists, and what is generated for it

A check lists the bindings of a table in groups, one for each kind that has any. The groups put
together are the bindings, in their order, so the lines of the report give back every name. The
members that are generated for the same table are made by another traversal, kind by kind, and have
the names of the groups, where the group for log forwarding stands for one member. A report without
anything to list is one on a table for which nothing is written.
-/

import WorkerEnv.Proofs.Command.Failing
import WorkerEnv.Proofs.Declaration.Mapping
import WorkerEnv.Proofs.Manifest.Reading

namespace WorkerEnv.Command

open Storage Declaration Generation

variable {b : Bindings}

/-! ## Groups -/

/-- The bindings of a group. -/
def groupPairs (group : Kind × List String) : List (Kind × String) := group.2.map (group.1, ·)

/-- The names of the members that a group becomes. -/
def groupMemberNames (group : Kind × List String) : List String :=
  if group.1 = .logForwarding then [logMember.name] else group.2

/-- The first kind is visited before the second. -/
def Precedes (kind kind' : Kind) : Prop := Kind.all.idxOf kind < Kind.all.idxOf kind'

theorem ne_nil_of_mem_groups {group : Kind × List String} (h : group ∈ groups b) :
    group.2 ≠ [] := by
  obtain ⟨-, hsome⟩ := List.mem_filter.1 h
  simpa using hsome

theorem pairwise_groups (b : Bindings) : (groups b).Pairwise fun g g' => Precedes g.1 g'.1 := by
  have hall : Kind.all.Pairwise Precedes := by
    unfold Precedes
    decide
  refine List.Pairwise.filter _ (List.pairwise_map.2 ?_)
  exact hall

/-- What is put together from the groups is put together from the kinds that have bindings. -/
theorem flatMap_groups {α : Type} (f : Kind × List String → List α) (b : Bindings) :
    (groups b).flatMap f =
      Kind.all.flatMap fun kind => if b.names kind = [] then [] else f (kind, b.names kind) := by
  rw [groups]
  induction Kind.all with
  | nil => rfl
  | cons kind kinds ih =>
    rw [List.map_cons, List.flatMap_cons, ← ih]
    cases hnames : b.names kind with
    | nil => rw [List.filter_cons_of_neg (by simp), if_pos rfl, List.nil_append]
    | cons name names =>
      rw [List.filter_cons_of_pos (by simp), List.flatMap_cons, if_neg (by simp)]

theorem flatMap_groupPairs (b : Bindings) : (groups b).flatMap groupPairs = b.pairs := by
  rw [flatMap_groups, Bindings.pairs]
  refine List.flatMap_congr fun kind _ => ?_
  rw [groupPairs]
  split
  · next hnone => rw [hnone, List.map_nil]
  · rfl

theorem groups_eq_nil_iff : groups b = [] ↔ b.pairs = [] := by
  rw [← flatMap_groupPairs, List.flatMap_eq_nil_iff]
  constructor
  · intro h
    simp [h]
  · intro h
    refine List.eq_nil_iff_forall_not_mem.2 ?_
    intro group hgroup
    exact ne_nil_of_mem_groups hgroup (List.map_eq_nil_iff.1 (h group hgroup))

/-! ## Members -/

theorem map_name_membersOf (b : Bindings) (kind : Kind) :
    (Definitions.membersOf b kind).map (·.name) =
      if b.names kind = [] then [] else groupMemberNames (kind, b.names kind) := by
  -- The members of a kind that does not share one have the names of its bindings, also if there
  -- are none.
  have hown : kind ≠ .logForwarding →
      (Definitions.membersOf b kind).map (·.name) = b.names kind →
      (Definitions.membersOf b kind).map (·.name) =
        if b.names kind = [] then [] else groupMemberNames (kind, b.names kind) := by
    intro hkind hnames
    rw [hnames, groupMemberNames, if_neg hkind]
    split
    · assumption
    · rfl
  cases htype : typing kind with
  | uniform type =>
    refine hown ?_ ?_
    · rintro rfl
      cases htype
    · simp only [Definitions.membersOf, htype, List.map_map]
      exact List.map_id _
  | ofValue =>
    obtain rfl := typing_eq_ofValue_iff.1 htype
    refine hown (by decide) ?_
    simp only [Definitions.membersOf, htype, List.map_map]
    rfl
  | joint name type =>
    obtain ⟨rfl, hmember⟩ := typing_eq_joint_iff.1 htype
    simp only [Definitions.membersOf, htype, hmember, groupMemberNames, if_true, List.isEmpty_iff]
    split <;> rfl

/-- The members have the names of the groups. -/
theorem map_name_members (b : Bindings) :
    (Definitions.ofBindings b).members.map (·.name) = (groups b).flatMap groupMemberNames := by
  rw [flatMap_groups, Definitions.ofBindings, List.map_flatMap]
  exact List.flatMap_congr fun kind _ => map_name_membersOf b kind

/-! ## Lines -/

/-- The name that a line of a report lists, if it lists one. -/
def listedName? (line : String) : Option String :=
  (Text.afterPrefix? [' ', ' ', '-', ' '] line.toList).map String.ofList

theorem listedName?_item (name : String) : listedName? ("  - " ++ name) = some name := by
  have htext : ("  - " ++ name).toList = [' ', ' ', '-', ' '] ++ name.toList := by
    rw [String.toList_append]
    rfl
  rw [listedName?, htext, Text.afterPrefix?_append, Option.map_some, String.ofList_toList]

theorem listedName?_of_initial {line : String} (h : line.toList.head? ≠ some ' ') :
    listedName? line = none := by
  rw [listedName?]
  cases htext : line.toList with
  | nil => rfl
  | cons c rest =>
    rw [htext] at h
    have hc : ¬ ' ' = c := fun heq => h (congrArg some heq.symm)
    simp [Text.afterPrefix?, hc]

/-- A line begins with neither of the characters that an item and the line about nothing begin with. -/
def IsOther (line : String) : Prop := line.toList.head? ≠ some ' ' ∧ line.toList.head? ≠ some 'N'

instance (line : String) : Decidable (IsOther line) :=
  inferInstanceAs (Decidable (_ ∧ _))

theorem IsOther.listedName? {line : String} (h : IsOther line) : listedName? line = none :=
  listedName?_of_initial h.1

theorem IsOther.ne_nothingDeclared {line : String} (h : IsOther line) : line ≠ nothingDeclared := by
  rintro rfl
  exact h.2 rfl

theorem isOther_append {s : String} (hs : s ≠ "") (h : IsOther s) (s' : String) :
    IsOther (s ++ s') := by
  have hhead : (s ++ s').toList.head? = s.toList.head? := by
    rw [String.toList_append]
    cases htext : s.toList with
    | nil => exact absurd (String.toList_eq_nil_iff.1 htext) hs
    | cons c rest => rfl
  rwa [IsOther, hhead]

/-- What a report on a manifest begins with. -/
def headLines (config : String) (name environment : Option String) : List String :=
  ["✓ " ++ config ++ " is valid", ""] ++ (name.map (labelled "name")).toList ++
    (environment.map (labelled "env")).toList

theorem isOther_of_mem_headLines {config : String} {name environment : Option String}
    {line : String} (h : line ∈ headLines config name environment) : IsOther line := by
  have hoption : ∀ {key : String} {word : Option String}, key ≠ "" → IsOther key →
      line ∈ (word.map (labelled key)).toList → IsOther line := by
    intro key word hkey hother hmem
    obtain ⟨value, -, rfl⟩ := Option.map_eq_some_iff.1 (Option.mem_toList.1 hmem)
    rw [labelled, String.append_assoc]
    exact isOther_append hkey hother _
  rw [headLines, List.mem_append, List.mem_append, List.mem_cons, List.mem_singleton] at h
  rcases h with ((rfl | rfl) | hname) | henvironment
  · rw [String.append_assoc]
    exact isOther_append (by decide) (by decide) _
  · decide
  · exact hoption (by decide) (by decide) hname
  · exact hoption (by decide) (by decide) henvironment

theorem isOther_label (kind : Kind) : kind.label ≠ "" ∧ IsOther kind.label := by
  cases kind <;> decide

theorem filterMap_of_isOther {lines : List String} (h : ∀ line ∈ lines, IsOther line) :
    lines.filterMap listedName? = [] :=
  List.filterMap_eq_nil_iff.2 fun line hline => (h line hline).listedName?

/-- The line that a group is listed under. -/
def titleOf (kind : Kind) : String := kind.label ++ " (" ++ kind.place ++ "):"

theorem isOther_titleOf (kind : Kind) : IsOther (titleOf kind) := by
  obtain ⟨hsome, hother⟩ := isOther_label kind
  rw [titleOf, String.append_assoc, String.append_assoc]
  exact isOther_append hsome hother _

theorem groupLines_eq (group : Kind × List String) :
    groupLines group = ["", titleOf group.1] ++ group.2.map ("  - " ++ ·) := rfl

theorem filterMap_groupLines (group : Kind × List String) :
    (groupLines group).filterMap listedName? = group.2 := by
  have hhead : ["", titleOf group.1].filterMap listedName? = [] := by
    refine filterMap_of_isOther ?_
    simp only [List.forall_mem_cons]
    exact ⟨by decide, isOther_titleOf group.1, by simp⟩
  have hitem : listedName? ∘ ("  - " ++ ·) = some := funext listedName?_item
  rw [groupLines_eq, List.filterMap_append, hhead, List.nil_append, List.filterMap_map, hitem,
    List.filterMap_some]

theorem nothingDeclared_notMem_groupLines (group : Kind × List String) :
    nothingDeclared ∉ groupLines group := by
  rw [groupLines_eq, List.mem_append, List.mem_cons, List.mem_singleton, List.mem_map]
  rintro ((h | h) | ⟨name, -, h⟩)
  · exact absurd h (by decide)
  · exact (isOther_titleOf group.1).ne_nothingDeclared h.symm
  · have hitem := listedName?_item name
    have hnone : listedName? nothingDeclared = none := by decide
    rw [h, hnone] at hitem
    cases hitem

/-- The lines about the rules of a table. -/
def ruleLines (b : Bindings) : List String :=
  if b.rules.isEmpty then [] else ["", labelled "module rules" (toString b.rules.length)]

theorem isOther_of_mem_ruleLines {line : String} (h : line ∈ ruleLines b) : IsOther line := by
  rw [ruleLines] at h
  split at h
  · cases h
  · rw [List.mem_cons, List.mem_singleton] at h
    rcases h with rfl | rfl
    · decide
    · rw [labelled, String.append_assoc]
      exact isOther_append (by decide) (by decide) _

/-! ## Reports -/

/-- A report says that nothing is declared, or lists the groups and counts the rules. -/
theorem bindingReport_eq (config : String) (name environment : Option String) (b : Bindings) :
    bindingReport config name environment b = headLines config name environment ++
      if b.isEmpty then [nothingDeclared] else (groups b).flatMap groupLines ++ ruleLines b := by
  have hempty : (groups b).isEmpty = b.pairs.isEmpty := by
    rw [Bool.eq_iff_iff, List.isEmpty_iff, List.isEmpty_iff]
    exact groups_eq_nil_iff
  rw [bindingReport, bindingLines, Bindings.isEmpty, hempty]
  rfl

theorem listed_bindingReport (config : String) (name environment : Option String) (b : Bindings) :
    (bindingReport config name environment b).filterMap listedName? = b.pairs.map (·.2) := by
  have hhead : (headLines config name environment).filterMap listedName? = [] :=
    filterMap_of_isOther fun line hline => isOther_of_mem_headLines hline
  rw [bindingReport_eq, List.filterMap_append, hhead, List.nil_append]
  split
  · next hempty =>
    obtain ⟨hpairs, -⟩ := Bool.and_eq_true_iff.1 hempty
    rw [List.isEmpty_iff.1 hpairs]
    decide
  · have hrules : (ruleLines b).filterMap listedName? = [] :=
      filterMap_of_isOther fun line hline => isOther_of_mem_ruleLines hline
    rw [List.filterMap_append, hrules, List.append_nil, List.filterMap_flatMap, ← flatMap_groupPairs,
      List.map_flatMap]
    refine List.flatMap_congr fun group _ => ?_
    rw [filterMap_groupLines, groupPairs, List.map_map]
    exact (List.map_id _).symm

theorem nothingDeclared_mem_iff (config : String) (name environment : Option String) (b : Bindings) :
    nothingDeclared ∈ bindingReport config name environment b ↔ b.isEmpty := by
  have hhead : nothingDeclared ∉ headLines config name environment := by
    intro h
    exact (isOther_of_mem_headLines h).ne_nothingDeclared rfl
  rw [bindingReport_eq, List.mem_append, or_iff_right hhead]
  split
  · next hempty => exact iff_of_true List.mem_cons_self hempty
  · next hsome =>
    refine iff_of_false ?_ hsome
    rw [List.mem_append, List.mem_flatMap]
    rintro (⟨group, -, h⟩ | h)
    · exact nothingDeclared_notMem_groupLines group h
    · exact (isOther_of_mem_ruleLines h).ne_nothingDeclared rfl

/-! ## Checking and generating -/

/-- The requests are for the same environment of the same manifest. -/
structure SameInput (c : CheckOptions) (o : TypesOptions) : Prop where
  config : o.config = c.config
  environment : o.environment = c.environment

section Runs

variable {t : FileTree} {here : Location} {c : CheckOptions} {o : TypesOptions} {text : String}
  {m : Manifest}

theorem runCheck_of_select (hread : t.readText? here c.config = some text)
    (hparse : Manifest.parse text c.config = .ok m) (hselect : m.select c.environment = .ok b) :
    runCheck t here c = .success t (bindingReport c.config m.name c.environment b) := by
  have hopen := Manifest.openAt_of_parse hread hparse
  simp only [runCheck, hopen, bind, Except.bind, hselect, pure, Except.pure]

/-- What is planned for the same input is planned for the same bindings. -/
theorem definitions_of_plan {p : Plan} (hread : t.readText? here c.config = some text)
    (hparse : Manifest.parse text c.config = .ok m) (hselect : m.select c.environment = .ok b)
    (hsame : SameInput c o) (hplan : plan t here o = .ok p) :
    p.definitions = Definitions.ofBindings b := by
  obtain ⟨project, bindings, hopen, hbindings, -, hdefinitions⟩ := exists_of_plan hplan
  rw [hsame.config, Manifest.openAt_of_parse hread hparse] at hopen
  obtain rfl := Except.ok.inj hopen
  rw [hsame.environment, hselect] at hbindings
  obtain rfl := Except.ok.inj hbindings
  exact hdefinitions

theorem isEmpty_ofBindings_of_isEmpty (h : b.isEmpty) : (Definitions.ofBindings b).isEmpty := by
  obtain ⟨hpairs, hrules⟩ := Bool.and_eq_true_iff.1 h
  refine (isEmpty_ofBindings b).2 ⟨List.isEmpty_iff.1 hpairs, ?_⟩
  rw [List.isEmpty_iff.1 hrules]
  simp

/-- Where there is nothing to declare, nothing is done to the tree. -/
theorem write_of_isEmpty {d : Definitions} (h : d.isEmpty) (t : FileTree) (here : Location)
    (directory : String) (format : Script.Format) (time : Instant) :
    (write t here directory d format time).tree = t ∧
      ∀ path, (write t here directory d format time).result ≠ .ok (.written path) := by
  rw [write]
  split
  · refine ⟨rfl, ?_⟩
    intro path hwritten
    cases hwritten
  · rw [if_pos h]
    refine ⟨rfl, ?_⟩
    intro path hwritten
    cases hwritten

/-- What a check of an environment prints about its bindings, and what comes of the same input when
declarations are generated. -/
structure Listing (t : FileTree) (here : Location) (c : CheckOptions) (m : Manifest) (b : Bindings) :
    Prop where
  printed : runCheck t here c = .success t (bindingReport c.config m.name c.environment b)
  sections : bindingReport c.config m.name c.environment b =
    headLines c.config m.name c.environment ++
      if b.isEmpty then [nothingDeclared] else (groups b).flatMap groupLines ++ ruleLines b
  /-- The kinds of the groups are in the order of all kinds, and none comes twice. -/
  increasing : (groups b).Pairwise fun g g' => Precedes g.1 g'.1
  nonempty : ∀ group ∈ groups b, group.2 ≠ []
  /-- The groups put together are the bindings. -/
  complete : (groups b).flatMap groupPairs = b.pairs
  /-- The names can be read off the report. -/
  listed : (bindingReport c.config m.name c.environment b).filterMap listedName? =
    b.pairs.map (·.2)
  nothing : nothingDeclared ∈ bindingReport c.config m.name c.environment b ↔ b.isEmpty
  /-- The members that are generated have the names of the groups, but for log forwarding. -/
  generated : ∀ o, SameInput c o → ∀ p, plan t here o = .ok p →
    p.definitions.members.map (·.name) = (groups b).flatMap groupMemberNames
  /-- Where nothing is declared, nothing is written. -/
  unwritten : nothingDeclared ∈ bindingReport c.config m.name c.environment b →
    ∀ o, SameInput c o → ∀ now, (runTypes t here now o).tree = t ∧
      ∀ p, plan t here o = .ok p → ∀ path,
        (write t here o.directory p.definitions p.format now).result ≠ .ok (.written path)

/-- A check of an environment that is there prints its bindings in groups, complete and in order, and
what is generated for the same input has the names of the groups. If it prints that nothing is
declared, that is so, and no run on the same input writes anything. -/
theorem listing_account (hread : t.readText? here c.config = some text)
    (hparse : Manifest.parse text c.config = .ok m) (hselect : m.select c.environment = .ok b) :
    Listing t here c m b := by
  have hplanned : ∀ {o p}, SameInput c o → plan t here o = .ok p →
      p.definitions = Definitions.ofBindings b :=
    fun hsame hplan => definitions_of_plan hread hparse hselect hsame hplan
  constructor
  · exact runCheck_of_select hread hparse hselect
  · exact bindingReport_eq _ _ _ b
  · exact pairwise_groups b
  · exact fun _ => ne_nil_of_mem_groups
  · exact flatMap_groupPairs b
  · exact listed_bindingReport _ _ _ b
  · exact nothingDeclared_mem_iff _ _ _ b
  · intro o hsame p hplan
    rw [hplanned hsame hplan, map_name_members]
  · intro hnothing o hsame now
    have hempty : b.isEmpty := (nothingDeclared_mem_iff _ _ _ b).1 hnothing
    have huntouched : ∀ p, plan t here o = .ok p → p.definitions.isEmpty := by
      intro p hplan
      rw [hplanned hsame hplan]
      exact isEmpty_ofBindings_of_isEmpty hempty
    constructor
    · rw [runTypes_tree]
      cases hplan : plan t here o with
      | error problem => cases o.dryRun <;> rfl
      | ok p =>
        cases o.dryRun with
        | true => rfl
        | false => exact (write_of_isEmpty (huntouched p hplan) t here _ _ now).1
    · intro p hplan
      exact (write_of_isEmpty (huntouched p hplan) t here _ _ now).2

end Runs

/-- A manifest with a full environment and an empty one. -/
def fullAndEmpty : String :=
  "[[env.full.logfwdr.bindings]]\nname = \"A\"\n[env.full.vars]\nB = 2\n[env.empty]\nrules = []\n"

/-- A tree with this manifest. -/
def fullAndEmptyTree : FileTree :=
  FileTree.empty.set ["wrangler.toml"] (.file (Text.utf8 fullAndEmpty))

theorem listing_account_fullAndEmpty : ∃ m full empty,
    fullAndEmptyTree.readText? [] "wrangler.toml" = some fullAndEmpty ∧
    Manifest.parse fullAndEmpty "wrangler.toml" = .ok m ∧
    m.select (some "full") = .ok full ∧ m.select (some "empty") = .ok empty ∧
    groups full = [(.plainVar, ["B"]), (.logForwarding, ["A"])] ∧
    Listing fullAndEmptyTree [] ⟨"wrangler.toml", some "full"⟩ m full ∧
    nothingDeclared ∈ bindingReport "wrangler.toml" m.name (some "empty") empty ∧
    Listing fullAndEmptyTree [] ⟨"wrangler.toml", some "empty"⟩ m empty := by
  have hfound : ((Manifest.parse fullAndEmpty "wrangler.toml").toOption.bind fun m =>
      (m.select (some "full")).toOption.bind fun full =>
        (m.select (some "empty")).toOption.map fun empty => (groups full, empty.isEmpty)) =
      some ([(.plainVar, ["B"]), (.logForwarding, ["A"])], true) := by
    decide +kernel
  have hok : ∀ {α : Type} {x : Except Manifest.Problem α} {a : α}, x.toOption = some a →
      x = .ok a := by
    intro α x a h
    cases x with
    | error problem => cases h
    | ok a' => exact congrArg Except.ok (Option.some.inj h)
  simp only [Option.bind_eq_some_iff, Option.map_eq_some_iff, Prod.mk.injEq] at hfound
  obtain ⟨m, hparse, full, hfull, empty, hempty, hgroups, hnothing⟩ := hfound
  have hread : fullAndEmptyTree.readText? [] "wrangler.toml" = some fullAndEmpty := by
    decide +kernel
  have hlists : Listing fullAndEmptyTree [] ⟨"wrangler.toml", some "full"⟩ m full :=
    listing_account hread (hok hparse) (hok hfull)
  have hlistsNothing : Listing fullAndEmptyTree [] ⟨"wrangler.toml", some "empty"⟩ m empty :=
    listing_account hread (hok hparse) (hok hempty)
  exact ⟨m, full, empty, hread, hok hparse, hok hfull, hok hempty, hgroups, hlists,
    hlistsNothing.nothing.2 hnothing, hlistsNothing⟩

end WorkerEnv.Command
