/-
# WorkerEnv.Proofs.Manifest.Reading -- readings that come to the same

Two readings come to the same if both give one value, or both end with problems that are alike: of
one kind and about the same names, though perhaps found in another file or at another place. The
relation goes through one step after the other, so it is enough to look at what each step reads.
-/

import WorkerEnv.Generation.Project

namespace WorkerEnv.Manifest

/-- Two problems are of one kind and about the same names, wherever they were found. -/
inductive Problem.Alike : Problem → Problem → Prop where
  | unreadable (path path' : String) : Alike (.unreadable path) (.unreadable path')
  | entryPoint (path path' : String) : Alike (.entryPoint path) (.entryPoint path')
  | malformed (file file' : String) : Alike (.malformed file) (.malformed file')
  | unnamed (file file' : String) (kind : Kind) (place place' : Option Text.Span) :
      Alike (.unnamed file kind place) (.unnamed file' kind place')
  | duplicate (file file' name : String) (first second : Kind) (place place' : Option Text.Span) :
      Alike (.duplicate file name first second place) (.duplicate file' name first second place')
  | unknownEnvironment (name : String) (available : List String) :
      Alike (.unknownEnvironment name available) (.unknownEnvironment name available)

theorem Problem.Alike.refl (problem : Problem) : problem.Alike problem := by
  cases problem with
  | unreadable path => exact .unreadable path path
  | entryPoint path => exact .entryPoint path path
  | malformed file => exact .malformed file file
  | unnamed file kind place => exact .unnamed file file kind place place
  | duplicate file name first second place => exact .duplicate file file name first second place place
  | unknownEnvironment name available => exact .unknownEnvironment name available

theorem Offence.toProblem_alike (offence : Offence) (text text' : List Char) (file file' : String) :
    (offence.toProblem text file).Alike (offence.toProblem text' file') := by
  cases offence with
  | unnamed kind => exact .unnamed file file' kind _ _
  | duplicate name first second => exact .duplicate file file' name first second _ _

/-- Two readings come to the same: to one value, or to problems that are alike. -/
inductive SameReading {α : Type} : Except Problem α → Except Problem α → Prop where
  | ok (a : α) : SameReading (.ok a) (.ok a)
  | error {problem problem' : Problem} (h : problem.Alike problem') :
      SameReading (.error problem) (.error problem')

section Steps

variable {α β : Type} {x x' : Except Problem α}

theorem ok_of_toOption {a : α} (h : x.toOption = some a) : x = .ok a := by
  cases x with
  | error problem => cases h
  | ok b => rw [Option.some.inj h]

theorem SameReading.refl (x : Except Problem α) : SameReading x x := by
  cases x with
  | error problem => exact .error (.refl problem)
  | ok a => exact .ok a

theorem SameReading.bind {next next' : α → Except Problem β} (h : SameReading x x')
    (hnext : ∀ a, SameReading (next a) (next' a)) : SameReading (x >>= next) (x' >>= next') := by
  cases h with
  | ok a => exact hnext a
  | error h => exact .error h

theorem SameReading.eq_ok_iff (h : SameReading x x') {a : α} : x = .ok a ↔ x' = .ok a := by
  cases h with
  | ok b => exact Iff.rfl
  | error h => exact iff_of_false nofun nofun

end Steps

/-- Texts that declare one manifest are accepted or rejected together, and for the same reason. -/
theorem sameReading_parse {text text' : String} (h : ofText? text = ofText? text')
    (file file' : String) : SameReading (parse text file) (parse text' file') := by
  rw [parse, parse, ← h]
  cases ofText? text with
  | none => exact .error (.malformed file file')
  | some m =>
    cases hoffence : m.offence? with
    | none =>
      simp only [hoffence]
      exact .ok m
    | some offence =>
      simp only [hoffence]
      exact .error (offence.toProblem_alike _ _ _ _)

/-- Whether a text is accepted does not depend on the file it was found in. -/
theorem openAt_of_parse {t : Storage.FileTree} {here : Storage.Location} {path text file : String}
    {m : Manifest} (hread : t.readText? here path = some text) (hparse : parse text file = .ok m) :
    Generation.Project.openAt t here path = .ok ⟨path, m⟩ := by
  have hsame : SameReading (parse text file) (parse text path) := sameReading_parse rfl file path
  simp only [Generation.Project.openAt, hread, hsame.eq_ok_iff.1 hparse]
  rfl

end WorkerEnv.Manifest
