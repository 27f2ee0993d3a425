/-
# WorkerEnv.Proofs.Command.Precedence -- what decides the form of the entry point

What the caller says comes first, then what the manifest says, then that there is no entry point. None
of these depends on what is in the tree. Only what is left reads a file: the one that the manifest
names, from the directory that the manifest stands in. By what path the manifest was opened, and from
where, makes a difference only to how long the path of the entry point is.
-/

import WorkerEnv.Proofs.Command.Rooted

namespace WorkerEnv.Command

open Storage Storage.FileTree Manifest Generation

variable {t : FileTree} {here place : Location} {path main : String} {p : Project}

/-! ## Where a manifest stands -/

theorem read_of_openAt (h : Project.openAt t here path = .ok p) :
    p.path = path ∧ ∃ text, t.readText? here path = some text := by
  rw [Project.openAt] at h
  split at h
  · cases h
  · next text htext =>
    cases hparse : parse text path with
    | error problem =>
      rw [hparse] at h
      cases h
    | ok m =>
      rw [hparse] at h
      cases h
      exact ⟨rfl, text, htext⟩

/-- A manifest that was opened stands in a directory, and the path made for that leads there. -/
theorem houses_of_openAt (hhere : t.Stands here) (h : Project.openAt t here path = .ok p) :
    ∃ place name bytes, t.resolve here path = .ok (place ++ [name]) ∧
      t.get? (place ++ [name]) = some (.file bytes) ∧ t.get? place = some .directory ∧
      Houses t here p place := by
  obtain ⟨rfl, text, htext⟩ := read_of_openAt h
  obtain ⟨site, bytes, hresolve, hfile⟩ := exists_of_readText? htext
  have hstart : t.Stands (startOf here p.path) := by
    rw [startOf]
    split_ifs
    · exact stands_root t
    · exact hhere
  have hhouses := houses_of_resolve hstart hresolve hfile
  have hdirectory := (walk_of_enter hhouses.enters).2.1
  have hne : site ≠ [] := by
    rintro rfl
    cases hfile
  have hsite : site = site.dropLast ++ [site.getLast hne] := (List.dropLast_append_getLast hne).symm
  rw [hsite] at hresolve hfile
  exact ⟨site.dropLast, site.getLast hne, bytes, hresolve, hfile, hdirectory, hhouses⟩

/-- The entry point is read as if one stood in the directory of the manifest, as long as the path
made for it is short enough. -/
theorem Houses.readText?_join (h : Houses t here p place) (hplace : t.get? place = some .directory)
    (main : String) :
    t.readText? here (join p.directory main) =
      if usable (join p.directory main) then t.readText? place main else none := by
  have hne := join_ne_empty_of_base h.nonempty main
  split_ifs with hu
  · by_cases hrel : isAbsolute main
    · have hresolve : t.resolve here main = t.resolve place main := by
        rw [resolve, resolve, startOf, if_pos hrel, startOf, if_pos hrel]
      rw [join, if_pos hrel]
      exact readText?_congr hresolve
    · have hwalk := h.walk_join hrel
      rw [← resolve_of_usable hne hu] at hwalk
      by_cases hempty : main = ""
      · -- Without a name the path leads to the directory, and the empty path leads nowhere.
        subst hempty
        have hself : t.walk place (segments "") = .ok place := by
          rw [segments_empty, walk_cons_empty hplace, walk]
        rw [hself] at hwalk
        rw [readText?, FileTree.read, find, hwalk]
        simp only [bind, Except.bind, hplace]
        rfl
      · have humain : usable main := by
          rw [join_of_relative hrel] at hu
          split_ifs at hu
          · exact usable_of_append_right hu
          · exact usable_of_append_right hu
        apply readText?_congr
        rw [hwalk, resolve_of_usable hempty humain, startOf, if_neg hrel]
  · rw [readText?, FileTree.read, find_of_unusable hne hu]
    rfl

/-! ## The order of the sources -/

theorem entryFormat_stated {m : Manifest} {format : Script.Format} (h : m.format = some format)
    (directory : String) : entryFormat t here none m directory = .ok format := by
  unfold entryFormat
  rw [h]

theorem entryFormat_absent {m : Manifest} (hformat : m.format = none) (hmain : m.main = none)
    (directory : String) : entryFormat t here none m directory = .ok .modules := by
  unfold entryFormat
  rw [hformat, hmain]

theorem entryFormat_entry {m : Manifest} (hformat : m.format = none) (hmain : m.main = some main)
    (directory : String) :
    entryFormat t here none m directory =
      match t.readText? here (join directory main) with
      | some source => .ok (Script.formatOf source)
      | none => .error (.entryPoint (join directory main)) := by
  unfold entryFormat
  cases hread : t.readText? here (join directory main) with
  | none => simp only [hformat, hmain, hread]
  | some source => simp only [hformat, hmain, hread]

/-- Whoever opens a manifest gets the form of its entry point from the first source that has one.
The first three have the same answer in every tree and from everywhere. The last is the text of the
entry point, looked for from the directory of the manifest wherever the manifest was opened from; if
it cannot be read the problem names its path, and there is no other problem. -/
theorem entryFormat_account (hhere : t.Stands here) (hopen : Project.openAt t here path = .ok p) :
    (∀ format t' here', entryFormat t' here' (some format) p.manifest p.directory = .ok format) ∧
    (∀ format, p.manifest.format = some format →
      ∀ t' here', entryFormat t' here' none p.manifest p.directory = .ok format) ∧
    (p.manifest.format = none → p.manifest.main = none →
      ∀ t' here', entryFormat t' here' none p.manifest p.directory = .ok .modules) ∧
    ∃ place name bytes, t.resolve here path = .ok (place ++ [name]) ∧
      t.get? (place ++ [name]) = some (.file bytes) ∧ t.get? place = some .directory ∧
      ∀ main, p.manifest.format = none → p.manifest.main = some main →
        t.readText? here (join p.directory main) =
          (if usable (join p.directory main) then t.readText? place main else none) ∧
        (∀ format, entryFormat t here none p.manifest p.directory = .ok format ↔
          ∃ source, t.readText? here (join p.directory main) = some source ∧
            format = Script.formatOf source) ∧
        (∀ problem, entryFormat t here none p.manifest p.directory = .error problem ↔
          t.readText? here (join p.directory main) = none ∧
            problem = .entryPoint (join p.directory main)) := by
  refine ⟨fun format t' here' => rfl, fun format hformat t' here' => entryFormat_stated hformat _,
    fun hformat hmain t' here' => entryFormat_absent hformat hmain _, ?_⟩
  obtain ⟨place, name, bytes, hresolve, hfile, hplace, hhouses⟩ := houses_of_openAt hhere hopen
  refine ⟨place, name, bytes, hresolve, hfile, hplace, fun main hformat hmain => ?_⟩
  refine ⟨hhouses.readText?_join hplace main, fun format => ?_, fun problem => ?_⟩
  · rw [entryFormat_entry hformat hmain]
    cases t.readText? here (join p.directory main) with
    | none => simp
    | some source => simp [eq_comm]
  · rw [entryFormat_entry hformat hmain]
    cases t.readText? here (join p.directory main) with
    | none => simp [eq_comm]
    | some source => simp

/-- A tree in which the directory somebody stands in was taken away, next to a manifest, and where
that is. -/
def deserted : FileTree × Location :=
  (workerTree.set ["worker", "old"] .directory).removeAround ["worker", "old"] ["worker", "old"]

theorem deserted_stands : deserted.1.Stands deserted.2 := by
  have hname : IsName "old" := ⟨⟨by decide, by decide⟩, by decide, by decide⟩
  have hworker : workerTree.get? ["worker"] = some .directory := by decide
  have hnone : workerTree.get? (["worker"] ++ ["old"]) ≠ some .directory := by decide
  have hwellFormed : (workerTree.set (["worker"] ++ ["old"]) .directory).WellFormed :=
    workerTree_wellFormed.set hworker hname hnone (by simp)
  have hhere : (workerTree.set (["worker"] ++ ["old"]) .directory).get? ["worker", "old"] =
      some .directory := by
    decide
  exact (hwellFormed.stands hhere).removeAround ["worker", "old"]

theorem entryFormat_account_deserted : ∃ p, deserted.1.Stands deserted.2 ∧
    Project.openAt deserted.1 deserted.2 "../wrangler.toml" = .ok p ∧
    deserted.1.get? deserted.2 = some .removed ∧
    entryFormat deserted.1 deserted.2 none p.manifest p.directory = .ok .modules ∧
    entryFormat .empty [] (some .serviceWorker) p.manifest p.directory = .ok .serviceWorker := by
  have hopens : (Project.openAt deserted.1 deserted.2 "../wrangler.toml").toOption.map
      (fun p => (p.manifest.main, p.manifest.format, p.directory)) =
        some (some "w.js", none, "..") := by
    decide +kernel
  obtain ⟨p, hsome, hmanifest⟩ := Option.map_eq_some_iff.1 hopens
  obtain ⟨hmain, hformat, hdirectory⟩ :
      p.manifest.main = some "w.js" ∧ p.manifest.format = none ∧ p.directory = ".." := by
    simpa using hmanifest
  have hopen : Project.openAt deserted.1 deserted.2 "../wrangler.toml" = .ok p :=
    ok_of_toOption hsome
  obtain ⟨hgiven, -, -, place, name, bytes, hresolve, -, -, hentry⟩ :=
    entryFormat_account deserted_stands hopen
  have hplace : place = ["worker"] := by
    have hsite : deserted.1.resolve deserted.2 "../wrangler.toml" =
        .ok (["worker"] ++ ["wrangler.toml"]) := by
      decide +kernel
    rw [hsite] at hresolve
    exact (List.append_inj' (Except.ok.inj hresolve) rfl).1.symm
  have hread : deserted.1.readText? place "w.js" = some "export default {};\n" := by
    rw [hplace]
    decide +kernel
  have husable : usable (join p.directory "w.js") := by
    rw [hdirectory]
    decide
  obtain ⟨hjoin, hform, -⟩ := hentry "w.js" hformat hmain
  rw [if_pos husable, hread] at hjoin
  have hdetected : Script.formatOf "export default {};\n" = .modules := by decide +kernel
  exact ⟨p, deserted_stands, hopen, by decide, (hform .modules).2 ⟨_, hjoin, hdetected.symm⟩,
    hgiven .serviceWorker .empty []⟩

end WorkerEnv.Command
