/-
# WorkerEnv.Proofs.Declaration.Headings -- the patterns of module declarations as string literals

A module declaration names its pattern between quotes, as it is. What stands between quotes is read
as a string literal, though, with escapes. So the heading says the pattern exactly if nothing in it
would have to be escaped: no quote, no backslash, and no character that a literal must not hold.
Which characters these are differs from language to language; it is a parameter here, and the end of
a line is the only one that is always among them. Types of variables, which are quoted in the same
file, do escape all of these.

`Denotes` reads literals with the escapes that are read for JSON. An escape takes at least two
characters for one, so a text with an escape in it is never what it denotes.
-/

import WorkerEnv.Proofs.Declaration.Mapping
import WorkerEnv.Proofs.Declaration.Shape
import WorkerEnv.Proofs.Manifest.Reading
import WorkerEnv.Proofs.Text.Unquoting

namespace WorkerEnv.Declaration

open Text

/-! ## What a literal denotes -/

/-- What the text between the quotes of a string literal denotes, where `raw` says which characters
may stand for themselves. -/
inductive Denotes (raw : Char → Prop) : List Char → List Char → Prop where
  | nil : Denotes raw [] []
  | plain {c : Char} {inner s : List Char} (hraw : raw c) (hquote : c ≠ quoteMark)
      (hslash : c ≠ '\\') (hrest : Denotes raw inner s) : Denotes raw (c :: inner) (c :: s)
  | escape {c : Char} {inner rest s : List Char} (hescape : unescaped inner = some (c, rest))
      (hrest : Denotes raw rest s) : Denotes raw ('\\' :: inner) (c :: s)

/-- A character that needs no escape. -/
def IsPlain (raw : Char → Prop) (c : Char) : Prop := raw c ∧ c ≠ quoteMark ∧ c ≠ '\\'

instance (raw : Char → Prop) [DecidablePred raw] : DecidablePred (IsPlain raw) :=
  fun c => inferInstanceAs (Decidable (raw c ∧ c ≠ quoteMark ∧ c ≠ '\\'))

section Literals

variable {raw : Char → Prop} {inner s : List Char}

theorem length_le_of_codeUnit {n : Nat} {r : List Char} (h : codeUnit s = some (n, r)) :
    r.length ≤ s.length := by
  simp only [codeUnit] at h
  split_ifs at h
  cases h
  rw [List.length_drop]
  omega

theorem length_le_of_numbered {c : Char} {r : List Char} (h : numbered s = some (c, r)) :
    r.length ≤ s.length := by
  unfold numbered at h
  split at h
  · cases h
  · next n r₁ hunit =>
    have hfirst := length_le_of_codeUnit hunit
    split_ifs at h
    · -- the second half of a pair stands behind a backslash of its own
      split at h
      · next r₂ =>
        obtain ⟨⟨m, r₃⟩, hunit', hsecond⟩ := Option.bind_eq_some_iff.1 h
        have hlength := length_le_of_codeUnit hunit'
        simp only [List.length_cons] at hfirst
        simp only at hsecond
        split_ifs at hsecond
        obtain rfl : r₃ = r := congrArg Prod.snd (Option.some.inj hsecond)
        omega
      · cases h
    · cases h
      exact hfirst

theorem unescaped_cases {c d : Char} {r : List Char} (h : unescaped (d :: s) = some (c, r)) :
    r = s ∨ numbered s = some (c, r) := by
  simp only [unescaped] at h
  grind

/-- An escape takes something beside its backslash. -/
theorem length_lt_of_unescaped {c : Char} {r : List Char} (h : unescaped s = some (c, r)) :
    r.length < s.length := by
  cases s with
  | nil => cases h
  | cons d s =>
    apply Nat.lt_succ_of_le
    rcases unescaped_cases h with rfl | hnumbered
    · exact Nat.le_refl _
    · exact length_le_of_numbered hnumbered

theorem Denotes.length_le (h : Denotes raw inner s) : s.length ≤ inner.length := by
  induction h with
  | nil => exact Nat.le_refl _
  | plain hraw hquote hslash hrest ih =>
    rw [List.length_cons, List.length_cons]
    omega
  | escape hescape hrest ih =>
    have hlength := length_lt_of_unescaped hescape
    rw [List.length_cons, List.length_cons]
    omega

/-- Only without escapes a literal is as short as what it denotes. -/
theorem Denotes.eq_of_length_le (h : Denotes raw inner s) (hlength : inner.length ≤ s.length) :
    inner = s ∧ ∀ c ∈ s, IsPlain raw c := by
  induction h with
  | nil => exact ⟨rfl, by simp⟩
  | plain hraw hquote hslash hrest ih =>
    rw [List.length_cons, List.length_cons] at hlength
    obtain ⟨heq, hplain⟩ := ih (by omega)
    exact ⟨by rw [heq], List.forall_mem_cons.2 ⟨⟨hraw, hquote, hslash⟩, hplain⟩⟩
  | escape hescape hrest ih =>
    have hshort := length_lt_of_unescaped hescape
    have hle := hrest.length_le
    rw [List.length_cons, List.length_cons] at hlength
    omega

theorem denotes_self (h : ∀ c ∈ s, IsPlain raw c) : Denotes raw s s := by
  induction s with
  | nil => exact .nil
  | cons c s ih =>
    obtain ⟨⟨hraw, hquote, hslash⟩, hrest⟩ := List.forall_mem_cons.1 h
    exact .plain hraw hquote hslash (ih hrest)

/-- Every text has a literal: its quoted form. -/
theorem denotes_escaped (hraw : ∀ c : Char, 0x20 ≤ c.toNat → raw c) (s : List Char) :
    Denotes raw (s.flatMap escaped) s := by
  induction s with
  | nil => exact .nil
  | cons c s ih =>
    rw [List.flatMap_cons]
    rcases escaped_cases c with ⟨e, h, -, hread⟩ | ⟨hcontrol, h⟩ | ⟨h, hquote, hslash, hprintable⟩
    · rw [h]
      exact .escape (hread _) ih
    · rw [h]
      exact .escape (numbered_hexDigits hcontrol _) ih
    · rw [h]
      exact .plain (hraw c hprintable) hquote hslash ih

end Literals

/-! ## Headings -/

/-- What stands before the pattern in a heading. -/
def headingStart : List Char := "declare module \"".toList

/-- What stands after the pattern in a heading. -/
def headingEnd : List Char := "\" \x7b".toList

/-- The first line of a text. -/
def firstLine (s : String) : List Char := s.toList.takeWhile (· ≠ '\n')

/-- A line opens the declaration of a module: the literal in it denotes the pattern. -/
def Opens (raw : Char → Prop) (line : List Char) (pattern : String) : Prop :=
  ∃ inner, line = headingStart ++ inner ++ headingEnd ∧ Denotes raw inner pattern.toList

section Headings

variable {raw : Char → Prop} {m : AmbientModule}

theorem takeWhile_append_newline (line rest : List Char) :
    (line ++ '\n' :: rest).takeWhile (· ≠ '\n') = line.takeWhile (· ≠ '\n') := by
  induction line with
  | nil => rfl
  | cons c line ih =>
    rw [List.cons_append, List.takeWhile_cons, List.takeWhile_cons, ih]

/-- The pattern is written as it is, so the line ends where the pattern has a line feed. -/
theorem firstLine_moduleText (m : AmbientModule) :
    firstLine (moduleText m) =
      headingStart ++ (m.pattern.toList ++ headingEnd).takeWhile (· ≠ '\n') := by
  have htext : ∃ rest, (moduleText m).toList =
      headingStart ++ (m.pattern.toList ++ headingEnd ++ '\n' :: rest) := by
    have hlines : ["const value: " ++ m.type ++ ";", "export default value;"] ≠ [] :=
      List.cons_ne_nil _ _
    have hstart : "declare module \"".toList = headingStart := rfl
    have hend : "\"".toList ++ " \x7b\n".toList = headingEnd ++ ['\n'] := by decide
    rw [moduleText, bracedText, if_neg hlines]
    generalize String.join _ = lines
    refine ⟨lines.toList ++ "\x7d\n".toList, ?_⟩
    rw [List.append_assoc, List.append_cons, ← hend]
    simp only [String.toList_append, hstart, List.append_assoc]
  obtain ⟨rest, htext⟩ := htext
  have hstart : headingStart.all (· ≠ '\n') := by decide
  rw [firstLine, htext, List.takeWhile_append_of_pos (List.all_eq_true.1 hstart),
    takeWhile_append_newline]

theorem plain_of_opens (h : Opens raw (firstLine (moduleText m)) m.pattern) :
    ∀ c ∈ m.pattern.toList, IsPlain raw c := by
  obtain ⟨inner, hline, hdenotes⟩ := h
  rw [firstLine_moduleText, List.append_assoc] at hline
  have hrest := List.append_cancel_left hline
  -- the line has no room for more than the pattern itself
  have hlength : inner.length ≤ m.pattern.toList.length := by
    have hbegins := List.takeWhile_prefix (l := m.pattern.toList ++ headingEnd) (· ≠ '\n')
    have hle := hbegins.length_le
    rw [hrest, List.length_append, List.length_append] at hle
    omega
  exact (hdenotes.eq_of_length_le hlength).2

theorem opens_of_plain (hfeed : ¬ raw '\n') (h : ∀ c ∈ m.pattern.toList, IsPlain raw c) :
    Opens raw (firstLine (moduleText m)) m.pattern := by
  have hend : headingEnd.all (· ≠ '\n') := by decide
  have hline : ∀ c ∈ m.pattern.toList ++ headingEnd, decide (c ≠ '\n') := by
    refine List.forall_mem_append.2 ⟨fun c hc => ?_, List.all_eq_true.1 hend⟩
    apply decide_eq_true
    rintro rfl
    exact hfeed (h _ hc).1
  refine ⟨m.pattern.toList, ?_, denotes_self h⟩
  rw [firstLine_moduleText, List.takeWhile_eq_self_iff.2 hline, List.append_assoc]

/-- With the pattern in its quoted form a heading says every pattern. -/
theorem opens_quoted (hraw : ∀ c : Char, 0x20 ≤ c.toNat → raw c) (pattern : String) :
    Opens raw ("declare module " ++ quote pattern ++ " \x7b").toList pattern := by
  have hstart : "declare module ".toList ++ [quoteMark] = headingStart := by decide
  have hend : quoteMark :: " \x7b".toList = headingEnd := by decide
  refine ⟨pattern.toList.flatMap escaped, ?_, denotes_escaped hraw _⟩
  rw [quote, quoted, ← hstart, ← hend]
  simp only [String.toList_append, String.toList_ofList, List.append_assoc, List.cons_append,
    List.nil_append]

/-- A suffix behind the star and the dot. -/
theorem isPlain_pattern_iff (hstar : raw '*') (hdot : raw '.') (extension : String) :
    (∀ c ∈ ("*." ++ extension).toList, IsPlain raw c) ↔ ∀ c ∈ extension.toList, IsPlain raw c := by
  have hfront : ∀ c ∈ "*.".toList, IsPlain raw c := by
    have hchars : "*.".toList = ['*', '.'] := by decide
    rw [hchars, List.forall_mem_cons, List.forall_mem_singleton]
    exact ⟨⟨hstar, by decide, by decide⟩, ⟨hdot, by decide, by decide⟩⟩
  rw [String.toList_append, List.forall_mem_append]
  exact and_iff_right hfront

end Headings

/-! ## The headings of a file -/

/-- Every module declaration opens with the pattern of its glob. -/
def SoundHeadings (raw : Char → Prop) (b : Bindings) : Prop :=
  List.Forall₂ (fun i m => ∃ extension, IsExtension i.2 extension ∧
    Opens raw (firstLine (moduleText m)) ("*." ++ extension))
    (imports b) (Definitions.ofBindings b).modules

section Rules

variable {raw : Char → Prop}

theorem Imported.plain_of_opens {i : ModuleType × String} {m : AmbientModule} (h : Imported i m)
    {extension : String} (hextension : IsExtension i.2 extension)
    (hopens : Opens raw (firstLine (moduleText m)) ("*." ++ extension)) :
    ∀ c ∈ extension.toList, IsPlain raw c := by
  obtain ⟨extension', hextension', hpattern⟩ := h.pattern
  rw [← hextension.unique hextension'] at hpattern
  rw [← hpattern] at hopens
  have hplain := Declaration.plain_of_opens hopens
  rw [hpattern, String.toList_append, List.forall_mem_append] at hplain
  exact hplain.2

/-- The heading of a glob says its pattern exactly if nothing of the suffix needs an escape. -/
theorem Imported.opens_iff {i : ModuleType × String} {m : AmbientModule} (h : Imported i m)
    (hfeed : ¬ raw '\n') (hstar : raw '*') (hdot : raw '.') {extension : String}
    (hextension : IsExtension i.2 extension) :
    Opens raw (firstLine (moduleText m)) ("*." ++ extension) ↔
      ∀ c ∈ extension.toList, IsPlain raw c := by
  refine ⟨h.plain_of_opens hextension, fun hplain => ?_⟩
  obtain ⟨extension', hextension', hpattern⟩ := h.pattern
  rw [← hextension.unique hextension'] at hpattern
  rw [← hpattern]
  apply opens_of_plain hfeed
  rw [hpattern]
  exact (isPlain_pattern_iff hstar hdot extension).2 hplain

/-- Without any condition on what a literal may hold. -/
theorem plain_of_soundHeadings {b : Bindings} (h : SoundHeadings raw b) :
    ∀ i ∈ imports b, ∀ extension, IsExtension i.2 extension →
      ∀ c ∈ extension.toList, IsPlain raw c := by
  have hmodules := imported_ofBindings b
  unfold SoundHeadings at h
  generalize imports b = is at h hmodules ⊢
  generalize (Definitions.ofBindings b).modules = ms at h hmodules
  induction hmodules with
  | nil => simp
  | cons hm _ ih =>
    obtain ⟨⟨extension, hextension, hopens⟩, hrest⟩ := List.forall₂_cons.1 h
    rw [List.forall_mem_cons]
    refine ⟨fun extension' hextension' => ?_, ih hrest⟩
    obtain rfl := hextension.unique hextension'
    exact hm.plain_of_opens hextension hopens

theorem soundHeadings_iff (hfeed : ¬ raw '\n') (hstar : raw '*') (hdot : raw '.') (b : Bindings) :
    SoundHeadings raw b ↔ ∀ i ∈ imports b, ∀ extension, IsExtension i.2 extension →
      ∀ c ∈ extension.toList, IsPlain raw c := by
  refine ⟨plain_of_soundHeadings, fun hplain => ?_⟩
  have hmodules := (List.forall₂_and_left _ _).2 ⟨hplain, imported_ofBindings b⟩
  refine hmodules.imp fun i m ⟨hi, hm⟩ => ?_
  have hextension := isExtension_suffix i.2
  exact ⟨_, hextension, (hm.opens_iff hfeed hstar hdot hextension).2 (hi _ hextension)⟩

/-- Both forms of the body end with the declarations of the modules, one for each glob in order. A
heading says the pattern of its glob exactly if no character of the suffix needs an escape, so all
headings do exactly if no glob has a quote, a backslash or a character after its last dot that a
literal must not hold. In their quoted form all patterns could be said. -/
theorem headings_account (b : Bindings) (format : Script.Format) (hfeed : ¬ raw '\n')
    (hprintable : ∀ c : Char, 0x20 ≤ c.toNat → raw c) :
    body (Definitions.ofBindings b) format =
      preamble format ++
        bracedText (heading format) (memberLines (Definitions.ofBindings b).members format) ++
        modulesText (Definitions.ofBindings b).modules ∧
    List.Forall₂ (fun i m => Imported i m ∧ ∀ extension, IsExtension i.2 extension →
        (Opens raw (firstLine (moduleText m)) ("*." ++ extension) ↔
          ∀ c ∈ extension.toList, IsPlain raw c))
      (imports b) (Definitions.ofBindings b).modules ∧
    (SoundHeadings raw b ↔ ∀ i ∈ imports b, ∀ extension, IsExtension i.2 extension →
      ∀ c ∈ extension.toList, IsPlain raw c) ∧
    ∀ pattern, Opens raw ("declare module " ++ quote pattern ++ " \x7b").toList pattern := by
  have hstar : raw '*' := hprintable '*' (by decide)
  have hdot : raw '.' := hprintable '.' (by decide)
  refine ⟨body_eq _ format, ?_, soundHeadings_iff hfeed hstar hdot b, opens_quoted hprintable⟩
  exact (imported_ofBindings b).imp fun i m hm =>
    ⟨hm, fun extension hextension => hm.opens_iff hfeed hstar hdot hextension⟩

/-- The characters that JSON lets stand for themselves in a string. -/
def PrintableInJson (c : Char) : Prop := 0x20 ≤ c.toNat

instance : DecidablePred PrintableInJson := fun c => inferInstanceAs (Decidable (0x20 ≤ c.toNat))

theorem headings_account_mixedBindings :
    ¬ PrintableInJson '\n' ∧ (∀ c : Char, 0x20 ≤ c.toNat → PrintableInJson c) ∧
    SoundHeadings PrintableInJson mixedBindings := by
  have hfeed : ¬ PrintableInJson '\n' := by decide
  have haccount := headings_account mixedBindings .modules hfeed (fun _ hc => hc)
  refine ⟨hfeed, fun _ hc => hc, haccount.2.2.1.2 ?_⟩
  have himports : imports mixedBindings = [(.text, "*.txt"), (.text, "README")] := by decide
  have hall : ["txt", "README"].all fun extension => extension.toList.all fun c =>
      IsPlain PrintableInJson c := by
    decide
  have hplain : ∀ extension ∈ ["txt", "README"], ∀ c ∈ extension.toList,
      IsPlain PrintableInJson c := by
    intro extension hextension c hc
    have hchar := List.all_eq_true.1 (List.all_eq_true.1 hall extension hextension) c hc
    exact decide_eq_true_iff.1 hchar
  intro i hi extension hextension
  have hsuffix := hextension.unique (isExtension_suffix i.2)
  have hmem : ∀ i ∈ imports mixedBindings, Definitions.suffix i.2 ∈ ["txt", "README"] := by
    rw [himports]
    decide
  exact hplain extension (hsuffix ▸ hmem i hi)

end Rules

/-! ## A quote in a glob -/

/-- A rule whose glob has a quote after its last dot. -/
def quotedGlob : String := "[[rules]]\ntype = \"Text\"\nglobs = ['*.a\"b']\n"

/-- Whatever a literal may hold, a quote ends it. -/
theorem not_soundHeadings_quotedGlob :
    ∃ m, Manifest.parse quotedGlob "wrangler.toml" = .ok m ∧
      imports m.bindings = [(.text, "*.a\"b")] ∧
      ∀ raw : Char → Prop, ¬ SoundHeadings raw m.bindings := by
  have himports : (Manifest.parse quotedGlob "wrangler.toml").toOption.map
      (imports ·.bindings) = some [(.text, "*.a\"b")] := by
    decide +kernel
  obtain ⟨m, hm, himports⟩ := Option.map_eq_some_iff.1 himports
  refine ⟨m, Manifest.ok_of_toOption hm, himports, ?_⟩
  intro raw hsound
  have hextension := isExtension_suffix "*.a\"b"
  have hquote : quoteMark ∈ (Definitions.suffix "*.a\"b").toList := by decide
  have hplain := plain_of_soundHeadings hsound (.text, "*.a\"b") (by rw [himports]; simp) _
    hextension _ hquote
  exact hplain.2.1 rfl

end WorkerEnv.Declaration
