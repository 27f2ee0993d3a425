/-
# WorkerEnv.Proofs.Manifest.Validation -- what the checks on a manifest accept and report

A table of bindings is clean if every binding has a name and no two have the same. The checks accept
exactly the manifests whose tables are all clean, and report the first offence of the first table
that is not. The search for an offence keeps the bindings it has seen in reverse; as long as it goes
on, these are clean, and so the earlier binding of a name that comes again is the only one.
-/

import Mathlib.Data.List.Nodup
import WorkerEnv.Manifest.Validation

namespace WorkerEnv.Manifest

/-! ## Clean tables -/

/-- Every binding has a name, and no two have the same. -/
def CleanPairs (pairs : List (Kind × String)) : Prop :=
  (∀ p ∈ pairs, p.2 ≠ "") ∧ (pairs.map (·.2)).Nodup

/-- A table of bindings in which every binding, of whatever kind, has a name of its own. -/
def Clean (b : Bindings) : Prop := CleanPairs b.pairs

/-- What the first offence in a sequence of bindings is: all before it is clean. -/
inductive FirstOffence : List (Kind × String) → Offence → Prop where
  | unnamed {before after : List (Kind × String)} {kind : Kind} (hclean : CleanPairs before) :
      FirstOffence (before ++ (kind, "") :: after) (.unnamed kind)
  | duplicate {before after : List (Kind × String)} {name : String} {first second : Kind}
      (hclean : CleanPairs before) (hname : name ≠ "") (hmem : (first, name) ∈ before)
      (honly : ∀ p ∈ before, p.2 = name → p = (first, name)) :
      FirstOffence (before ++ (second, name) :: after) (.duplicate name first second)

theorem cleanPairs_nil : CleanPairs [] := ⟨by simp, by simp⟩

theorem CleanPairs.of_append {pairs more : List (Kind × String)} (h : CleanPairs (pairs ++ more)) :
    CleanPairs pairs := by
  obtain ⟨hnames, hnodup⟩ := h
  rw [List.map_append] at hnodup
  refine ⟨?_, hnodup.of_append_left⟩
  intro p hp
  exact hnames p (List.mem_append_left _ hp)

theorem cleanPairs_concat {pairs : List (Kind × String)} {kind : Kind} {name : String} :
    CleanPairs (pairs ++ [(kind, name)]) ↔
      CleanPairs pairs ∧ name ≠ "" ∧ ∀ p ∈ pairs, p.2 ≠ name := by
  rw [CleanPairs, CleanPairs, List.forall_mem_append, List.forall_mem_singleton, List.map_append,
    List.map_singleton, List.nodup_append_comm, List.singleton_append, List.nodup_cons,
    List.mem_map]
  constructor
  · rintro ⟨⟨hnames, hname⟩, hnew, hnodup⟩
    exact ⟨⟨hnames, hnodup⟩, hname, fun p hp heq => hnew ⟨p, hp, heq⟩⟩
  · rintro ⟨⟨hnames, hnodup⟩, hname, hnew⟩
    exact ⟨⟨hnames, hname⟩, fun ⟨p, hp, heq⟩ => hnew p hp heq, hnodup⟩

/-- Two bindings of a clean sequence that have the same name are one. -/
theorem CleanPairs.eq_of_name {pairs : List (Kind × String)} (h : CleanPairs pairs)
    {p q : Kind × String} (hp : p ∈ pairs) (hq : q ∈ pairs) (heq : p.2 = q.2) : p = q :=
  List.inj_on_of_nodup_map h.2 hp hq heq

theorem FirstOffence.not_clean {pairs : List (Kind × String)} {offence : Offence}
    (h : FirstOffence pairs offence) : ¬ CleanPairs pairs := by
  intro hclean
  cases h with
  | unnamed _ => exact hclean.1 _ (List.mem_append_right _ List.mem_cons_self) rfl
  | @duplicate before after name first second _ _ hmem _ =>
    have hsplit : before ++ (second, name) :: after = before ++ [(second, name)] ++ after := by simp
    rw [hsplit] at hclean
    exact (cleanPairs_concat.1 hclean.of_append).2.2 _ hmem rfl

/-! ## The search -/

/-- What the search comes to after clean bindings that it has seen. -/
theorem firstOffence_spec {seen pairs : List (Kind × String)} (hseen : CleanPairs seen.reverse) :
    match firstOffence seen pairs with
    | none => CleanPairs (seen.reverse ++ pairs)
    | some offence => FirstOffence (seen.reverse ++ pairs) offence := by
  induction pairs generalizing seen with
  | nil =>
    show CleanPairs (seen.reverse ++ [])
    rwa [List.append_nil]
  | cons p rest ih =>
    obtain ⟨kind, name⟩ := p
    rw [firstOffence]
    by_cases hname : name = ""
    · subst hname
      rw [if_pos rfl]
      exact .unnamed hseen
    rw [if_neg hname]
    cases hfind : seen.find? (·.2 = name) with
    | some found =>
      obtain ⟨first, name'⟩ := found
      have hname' : name' = name := by simpa using List.find?_some hfind
      subst hname'
      -- What has been seen is clean, so no other binding there has the name.
      have hmem : (first, name') ∈ seen.reverse :=
        List.mem_reverse.2 (List.mem_of_find?_eq_some hfind)
      refine .duplicate hseen hname hmem ?_
      intro q hq heq
      exact hseen.eq_of_name hq hmem heq
    | none =>
      have hnew : ∀ q ∈ seen.reverse, q.2 ≠ name := by
        intro q hq
        simpa using List.find?_eq_none.1 hfind q (List.mem_reverse.1 hq)
      have hnext : CleanPairs ((kind, name) :: seen).reverse := by
        rw [List.reverse_cons]
        exact cleanPairs_concat.2 ⟨hseen, hname, hnew⟩
      have hrest := ih hnext
      rwa [List.reverse_cons, List.append_assoc, List.singleton_append] at hrest

theorem offenceIn_spec (b : Bindings) :
    match offenceIn b with
    | none => Clean b
    | some offence => FirstOffence b.pairs offence :=
  @firstOffence_spec [] b.pairs cleanPairs_nil

theorem offenceIn_eq_none_iff {b : Bindings} : offenceIn b = none ↔ Clean b := by
  have hspec := offenceIn_spec b
  cases hfound : offenceIn b with
  | none =>
    rw [hfound] at hspec
    exact iff_of_true rfl hspec
  | some offence =>
    rw [hfound] at hspec
    exact iff_of_false (by simp) hspec.not_clean

theorem offence?_eq_none_iff {m : Manifest} : m.offence? = none ↔ ∀ b ∈ m.tables, Clean b := by
  rw [offence?, List.findSome?_eq_none_iff]
  exact forall₂_congr fun b _ => offenceIn_eq_none_iff

/-! ## Reading and checking -/

/-- A text that declares a manifest is accepted exactly if all tables of the manifest are clean.
Otherwise the first table that is not clean is reported, by its first offence. -/
theorem parse_account {text : String} {m : Manifest} (h : ofText? text = some m) (file : String) :
    (parse text file = .ok m ↔ ∀ b ∈ m.tables, Clean b) ∧
    (parse text file = .ok m ∨
      ∃ before b after offence, m.tables = before ++ b :: after ∧ (∀ c ∈ before, Clean c) ∧
        ¬ Clean b ∧ FirstOffence b.pairs offence ∧
        parse text file = .error (offence.toProblem text.toList file)) := by
  rw [← offence?_eq_none_iff]
  cases hfound : m.offence? with
  | none =>
    have hparse : parse text file = .ok m := by simp only [parse, h, hfound]
    exact ⟨iff_of_true hparse rfl, Or.inl hparse⟩
  | some offence =>
    have hparse : parse text file = .error (offence.toProblem text.toList file) := by
      simp only [parse, h, hfound]
    rw [hparse]
    refine ⟨iff_of_false (by simp) (by simp), Or.inr ?_⟩
    obtain ⟨before, b, after, htables, hoffence, hbefore⟩ := List.findSome?_eq_some_iff.1 hfound
    have hfirst := offenceIn_spec b
    rw [hoffence] at hfirst
    refine ⟨before, b, after, offence, htables, ?_, hfirst.not_clean, hfirst, rfl⟩
    intro c hc
    exact offenceIn_eq_none_iff.1 (hbefore c hc)

/-- A rejected text is no manifest, or it declares one with an offence. -/
theorem problem_of_parse {text file : String} {problem : Problem}
    (h : parse text file = .error problem) :
    problem = .malformed file ∨ ∃ offence : Offence, problem = offence.toProblem text.toList file := by
  rw [parse] at h
  split at h
  · exact .inl (Except.error.inj h).symm
  · split at h
    · cases h
    · next offence _ => exact .inr ⟨offence, (Except.error.inj h).symm⟩

/-- What is wrong with a text, if anything is. -/
def problem? (text file : String) : Option Problem :=
  match parse text file with
  | .error problem => some problem
  | .ok _ => none

theorem problem?_eq_some_iff {text file : String} {problem : Problem} :
    problem? text file = some problem ↔ parse text file = .error problem := by
  rw [problem?]
  cases parse text file <;> simp

theorem mem_tables_of_select {m : Manifest} {selection : Option String} {b : Bindings}
    (h : m.select selection = .ok b) : b ∈ m.tables := by
  cases selection with
  | none =>
    obtain rfl := Except.ok.inj h
    exact List.mem_cons_self
  | some name =>
    rw [select] at h
    split at h
    · next found hlookup =>
      obtain rfl := Except.ok.inj h
      obtain ⟨before, after, henvironments, -⟩ := List.lookup_eq_some_iff.1 hlookup
      refine List.mem_cons_of_mem _ (List.mem_map.2 ⟨(name, found), ?_, rfl⟩)
      rw [henvironments]
      simp
    · cases h

/-- Whatever is selected from an accepted manifest is clean. -/
theorem clean_of_select {text file : String} {m : Manifest} (hparse : parse text file = .ok m)
    {selection : Option String} {b : Bindings} (hselect : m.select selection = .ok b) :
    Clean b := by
  have hnone : m.offence? = none := by
    rw [parse] at hparse
    split at hparse
    · cases hparse
    · split at hparse
      · next hnone =>
        obtain rfl := Except.ok.inj hparse
        exact hnone
      · cases hparse
  exact offence?_eq_none_iff.1 hnone b (mem_tables_of_select hselect)

/-- A name that stands in two kinds of one table. -/
def twoKinds : String := "[[kv_namespaces]]\nbinding = \"A\"\n[vars]\nA = 1\n"

theorem parse_account_twoKinds : ∃ m, ofText? twoKinds = some m ∧
    (parse twoKinds "wrangler.toml" = .ok m ↔ ∀ b ∈ m.tables, Clean b) := by
  have hread : (ofText? twoKinds).isSome := by decide +kernel
  obtain ⟨m, hm⟩ := Option.isSome_iff_exists.1 hread
  exact ⟨m, hm, (parse_account hm "wrangler.toml").1⟩

end WorkerEnv.Manifest
