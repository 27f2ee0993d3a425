/-
# WorkerEnv.Proofs.Command.Ownership -- files that were not generated, over whole runs

A run is a sequence of actions: calls of the writer, and command lines. A command line is, for the
file tree, at most one call of the writer, which `Action.call?` finds. So a run keeps every file
that lacks the marker exactly if none of its calls overwrites one; and none does whose directory is
given without steps to the parent, or is there already.
-/

import WorkerEnv.Command.Run
import WorkerEnv.Proofs.Generation.Overwriting

namespace WorkerEnv.Command

open Storage Storage.FileTree Declaration Generation

/-! ## Actions -/

/-- Something that may write the declaration file. -/
inductive Action where
  /-- A call of the writer. -/
  | call (c : Call)
  /-- A command line that is run in a directory at a time. -/
  | command (here : Location) (now : Instant) (arguments : List String)

namespace Action

/-- The tree that an action leaves. -/
def tree (t : FileTree) : Action → FileTree
  | call c => (c.attempt t).tree
  | command here now arguments => (run t here now arguments).tree

/-- The call of the writer that a request for types makes, once its plan is made. -/
def callOfPlan (here : Location) (now : Instant) (o : TypesOptions) (p : Plan) : Call :=
  ⟨here, o.directory, p.definitions, p.format, now⟩

/-- The call of the writer that an action makes, if it makes one. -/
def call? (t : FileTree) : Action → Option Call
  | call c => some c
  | command here now arguments =>
    match Request.ofArguments arguments with
    | .ok (.types o) =>
      if o.dryRun then none else (plan t here o).toOption.map (callOfPlan here now o)
    | _ => none

end Action

/-- What a call does to the tree, if there is one. -/
def Action.effect (t : FileTree) (call? : Option Call) : FileTree :=
  call?.elim t fun c => (c.attempt t).tree

/-- The tree after a run of actions. -/
def treeAfter (t : FileTree) (actions : List Action) : FileTree := actions.foldl Action.tree t

variable {t : FileTree}

theorem conclude_tree (tally : String) (a : Attempt) : (conclude tally a).tree = a.tree := by
  rw [conclude]
  split <;> rfl

/-- A request for types does to the tree what its call of the writer does. -/
theorem runTypes_tree (t : FileTree) (here : Location) (now : Instant) (o : TypesOptions) :
    (runTypes t here now o).tree =
      Action.effect t (if o.dryRun then none
        else (plan t here o).toOption.map (Action.callOfPlan here now o)) := by
  unfold runTypes
  cases hplan : plan t here o with
  | error problem => cases hdry : o.dryRun <;> rfl
  | ok p =>
    cases hdry : o.dryRun with
    | true => rfl
    | false => exact conclude_tree _ _

/-- What an action does to the tree is what its call of the writer does. -/
theorem Action.tree_eq (t : FileTree) (a : Action) :
    a.tree t = effect t (a.call? t) := by
  cases a with
  | call c => rfl
  | command here now arguments =>
    rw [Action.tree, Action.call?, run]
    cases Request.ofArguments arguments with
    | error stop => cases stop <;> rfl
    | ok request =>
      cases request with
      | types o => exact runTypes_tree t here now o
      | check o =>
        show (runCheck t here o).tree = t
        rw [runCheck]
        split <;> rfl
      | completions shell => rfl

theorem Action.wellFormed (ht : t.WellFormed) (a : Action) : (a.tree t).WellFormed := by
  rw [Action.tree_eq]
  cases a.call? t with
  | none => exact ht
  | some c => exact (came_attempt ht c).wellFormed ht

theorem treeAfter_wellFormed (ht : t.WellFormed) (actions : List Action) :
    (treeAfter t actions).WellFormed := by
  induction actions generalizing t with
  | nil => exact ht
  | cons a rest ih => exact ih (a.wellFormed ht)

/-! ## Files that were not generated -/

/-- A file without the marker survives an action exactly if the action makes no call that overwrites
it. -/
theorem Action.keeps_iff (ht : t.WellFormed) (a : Action) {place : Location} {bytes : List UInt8}
    (hfile : t.get? place = some (.file bytes)) (hforeign : ¬ Text.utf8 marker <:+: bytes) :
    (a.tree t).get? place = some (.file bytes) ↔
      ∀ c, a.call? t = some c → ¬ c.Overwrites t place := by
  rw [Action.tree_eq]
  cases hcall : a.call? t with
  | none =>
    refine iff_of_true hfile ?_
    intro c hc
    cases hc
  | some c =>
    have hiff := attempt_keeps_iff ht (c := c) hfile (mt carries_iff.1 hforeign)
    refine hiff.trans ⟨?_, ?_⟩
    · intro h c' hc
      obtain rfl := Option.some.inj hc
      exact h
    · intro h
      exact h c rfl

/-- No action of a run changes a file that lacks the marker when the action starts. -/
def KeepsForeign (t : FileTree) (actions : List Action) : Prop :=
  ∀ before a after, actions = before ++ a :: after → ∀ place bytes,
    (treeAfter t before).get? place = some (.file bytes) → ¬ Text.utf8 marker <:+: bytes →
      (a.tree (treeAfter t before)).get? place = some (.file bytes)

/-- An action of a run makes a call that overwrites a file without the marker. -/
def Overwrites (t : FileTree) (actions : List Action) : Prop :=
  ∃ before a after c place, actions = before ++ a :: after ∧
    a.call? (treeAfter t before) = some c ∧ c.Overwrites (treeAfter t before) place

/-- Where no call of a run overwrites a file without the marker by way of a missing directory, the
run keeps all those files, and only there. -/
theorem keepsForeign_iff (ht : t.WellFormed) (actions : List Action) :
    KeepsForeign t actions ↔ ¬ Overwrites t actions := by
  constructor
  · rintro hkeeps ⟨before, a, after, c, place, hrun, hcall, hover⟩
    obtain ⟨bytes, hfile, hforeign⟩ := hover.foreign
    have hwf := treeAfter_wellFormed ht before
    rw [carries_iff] at hforeign
    have hkept := hkeeps before a after hrun place bytes hfile hforeign
    exact (a.keeps_iff hwf hfile hforeign).1 hkept c hcall hover
  · intro hnot before a after hrun place bytes hfile hforeign
    have hwf := treeAfter_wellFormed ht before
    rw [a.keeps_iff hwf hfile hforeign]
    intro c hcall hover
    exact hnot ⟨before, a, after, c, place, hrun, hcall, hover⟩

/-- A tree with a file of somebody's own in one directory. -/
def ownFile : FileTree :=
  (FileTree.empty.set ["b"] .directory).set ["b", fileName] (.file (Text.utf8 "// mine\n"))

/-- A call that goes to that directory through one that is not there. -/
def throughMissing : Call := ⟨[], "/x/../b", ⟨[⟨"A", "1"⟩], []⟩, .modules, ⟨0, false⟩⟩

theorem ownFile_wellFormed : ownFile.WellFormed :=
  wellFormed_of_forall (by decide +kernel) (by decide +kernel)

theorem keepsForeign_iff_ownFile :
    ownFile.WellFormed ∧ (KeepsForeign ownFile [.call throughMissing] ↔
      ¬ Overwrites ownFile [.call throughMissing]) :=
  ⟨ownFile_wellFormed, keepsForeign_iff ownFile_wellFormed _⟩

/-- The call makes the missing directory and then writes over the file. -/
theorem not_keepsForeign_ownFile :
    ownFile.WellFormed ∧ ¬ KeepsForeign ownFile [.call throughMissing] := by
  refine ⟨ownFile_wellFormed, ?_⟩
  intro hkeeps
  have hforeign : ¬ Text.utf8 marker <:+: Text.utf8 "// mine\n" := by
    rw [← carries_iff]
    decide +kernel
  have hkept := hkeeps [] (.call throughMissing) [] rfl ["b", fileName] (Text.utf8 "// mine\n")
    (by decide +kernel) hforeign
  have hlost : (throughMissing.attempt ownFile).tree.get? ["b", fileName] ≠
      some (.file (Text.utf8 "// mine\n")) := by
    decide +kernel
  exact hlost hkept

/-- A directory that is there, or is given without steps to the parent, is safe to write in. -/
theorem keepsForeign_of_forward (ht : t.WellFormed) (actions : List Action)
    (h : ∀ before a after c, actions = before ++ a :: after →
      a.call? (treeAfter t before) = some c →
        ".." ∉ steps c.directory ∨
          (treeAfter t before).Leads (startOf c.here c.directory) (steps c.directory)) :
    KeepsForeign t actions := by
  rw [keepsForeign_iff ht]
  rintro ⟨before, a, after, c, place, hrun, hcall, hover⟩
  rcases h before a after c hrun hcall with hforward | hleads
  · exact hforward (hover.parent_mem (treeAfter_wellFormed ht before))
  · obtain ⟨p, hp, hmissing⟩ := hover.missing
    rw [hleads p hp] at hmissing
    cases hmissing

end WorkerEnv.Command
