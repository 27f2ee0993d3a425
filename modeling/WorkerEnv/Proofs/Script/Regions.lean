/-
# WorkerEnv.Proofs.Script.Regions -- comments and literals leave nothing of their bodies

A region is a comment or a literal from its opening to its end. Whatever stands in it, what blanking
leaves of it is the same one character: a space, or the line feed that ends a line comment. After a
neutral text the scanner is outside every region, and the next character cannot join the last one to
open a comment. So the code of a neutral text, a region and any text after them is the code of the
first, that one character, and the code of the last, and the form of a script does not depend on what
stands in its comments and literals.
-/

import Mathlib.Tactic.SplitIfs
import WorkerEnv.Script.Detection

namespace WorkerEnv.Script

/-! ## One character at a time -/

/-- Whether the text begins with the opening of a comment. -/
def opensComment : List Char → Bool
  | c :: d :: _ => c == '/' && (d == '/' || d == '*')
  | _ => false

/-- The mode after a character that does not open a comment. -/
def Mode.next : Mode → Char → Mode
  | .code, c => if isQuote c then .literal c false else .code
  | .lineComment, c => if c = '\n' then .code else .lineComment
  | .blockComment star, c => if star && c == '/' then .code else .blockComment (c == '*')
  | .literal quote escaping, c =>
    if escaping then .literal quote false
    else if c = '\\' then .literal quote true
    else if c = quote then .code
    else .literal quote false

/-- What is left of a character that does not open a comment. -/
def Mode.leaves : Mode → Char → List Char
  | .code, c => if isQuote c then [' '] else [c]
  | .lineComment, c => if c = '\n' then [c] else []
  | .blockComment _, _ => []
  | .literal _ _, _ => []

theorem blankedIn_nil (mode : Mode) : blankedIn mode [] = [] := by
  cases mode <;> rfl

theorem blankedIn_cons {mode : Mode} {c : Char} {r : List Char}
    (h : mode = .code → ¬ opensComment (c :: r)) :
    blankedIn mode (c :: r) = mode.leaves c ++ blankedIn (mode.next c) r := by
  cases mode with
  | code =>
    have hline : ∀ t, c = '/' → r = '/' :: t → False := by
      rintro t rfl rfl
      exact h rfl rfl
    have hblock : ∀ t, c = '/' → r = '*' :: t → False := by
      rintro t rfl rfl
      exact h rfl rfl
    rw [blankedIn.eq_4 c r hline hblock, Mode.leaves, Mode.next]
    split <;> rfl
  | lineComment =>
    rw [blankedIn, Mode.leaves, Mode.next]
    split <;> rfl
  | blockComment star =>
    rw [blankedIn, Mode.leaves, Mode.next, List.nil_append]
    split <;> rfl
  | literal quote escaping =>
    rw [blankedIn, Mode.leaves, Mode.next, List.nil_append]
    split_ifs <;> rfl

theorem not_opensComment_of_ne {c : Char} (h : c ≠ '/') (r : List Char) :
    ¬ opensComment (c :: r) := by
  cases r <;> simp [opensComment, h]

theorem not_opensComment_of_forall {c : Char} {r : List Char} (hline : ∀ t, c = '/' → r ≠ '/' :: t)
    (hblock : ∀ t, c = '/' → r ≠ '*' :: t) : ¬ opensComment (c :: r) := by
  intro hopens
  cases r with
  | nil => cases hopens
  | cons d r =>
    simp only [opensComment, Bool.and_eq_true, Bool.or_eq_true, beq_iff_eq] at hopens
    obtain ⟨hc, rfl | rfl⟩ := hopens
    · exact hline r hc rfl
    · exact hblock r hc rfl

/-- Unless a text ends in a slash, what follows it has no part in an opening at its start. -/
theorem opensComment_append {p : List Char} (hp : p ≠ []) (h : ¬ ['/'] <:+ p) (s : List Char) :
    opensComment (p ++ s) = opensComment p := by
  match p with
  | [] => exact absurd rfl hp
  | [c] =>
    have hc : c ≠ '/' := by
      rintro rfl
      exact h (List.suffix_refl _)
    exact (Bool.eq_false_iff.2 (not_opensComment_of_ne hc s)).trans rfl
  | c :: d :: r => rfl

/-- The mode in which the scanner comes to the end of a text that begins in the given mode. -/
def modeAfter : Mode → List Char → Mode
  | mode, [] => mode
  | .code, '/' :: '/' :: r => modeAfter .lineComment r
  | .code, '/' :: '*' :: r => modeAfter (.blockComment false) r
  | mode, c :: r => modeAfter (mode.next c) r

/-- A text can be blanked in two parts, the second from the mode in which the first ends. -/
theorem blankedIn_append {mode : Mode} {p : List Char} (h : ¬ ['/'] <:+ p) (s : List Char) :
    blankedIn mode (p ++ s) = blankedIn mode p ++ blankedIn (modeAfter mode p) s := by
  fun_induction modeAfter mode p with
  | case1 mode => rw [blankedIn_nil, List.nil_append, List.nil_append]
  | case2 r ih =>
    have hr : ¬ ['/'] <:+ r := fun hr => h (hr.trans (List.suffix_append ['/', '/'] r))
    exact ih hr
  | case3 r ih =>
    have hr : ¬ ['/'] <:+ r := fun hr => h (hr.trans (List.suffix_append ['/', '*'] r))
    exact congrArg (' ' :: ·) (ih hr)
  | case4 mode c r hline hblock ih =>
    have hr : ¬ ['/'] <:+ r := fun hr => h (hr.trans (List.suffix_cons c r))
    have hcode : mode = .code → ¬ opensComment (c :: r) := fun hmode =>
      not_opensComment_of_forall (fun t => hline t hmode) (fun t => hblock t hmode)
    -- nor does the last character of `p` open a comment together with the first of `s`
    have hjoined : mode = .code → ¬ opensComment (c :: (r ++ s)) := by
      intro hmode
      rw [← List.cons_append, opensComment_append (List.cons_ne_nil c r) h]
      exact hcode hmode
    rw [List.cons_append, blankedIn_cons hjoined, blankedIn_cons hcode, ih hr, List.append_assoc]

/-! ## Neutral texts -/

/-- The scanner ends outside every comment and literal, and the text does not end in a slash, which
might open a comment together with what follows. -/
structure Neutral (p : List Char) : Prop where
  outside : modeAfter .code p = .code
  ending : ¬ ['/'] <:+ p

theorem Neutral.blanked_append {p : List Char} (h : Neutral p) (s : List Char) :
    blanked (p ++ s) = blanked p ++ blanked s := by
  unfold blanked
  rw [blankedIn_append h.ending, h.outside]

/-! ## Regions -/

/-- The body of a literal: its quote stands only behind a backslash that escapes it, and no backslash
is left without a character to escape. -/
inductive LiteralBody (quote : Char) : List Char → Prop where
  | nil : LiteralBody quote []
  | plain {c : Char} {w : List Char} (hquote : c ≠ quote) (hslash : c ≠ '\\')
      (hrest : LiteralBody quote w) : LiteralBody quote (c :: w)
  | escape {c : Char} {w : List Char} (hrest : LiteralBody quote w) :
      LiteralBody quote ('\\' :: c :: w)

theorem literalBody_of_notMem {quote : Char} {w : List Char} (hquote : quote ∉ w)
    (hslash : '\\' ∉ w) : LiteralBody quote w := by
  induction w with
  | nil => exact .nil
  | cons c w ih =>
    obtain ⟨hc, hw⟩ := not_or.1 (mt List.mem_cons.2 hquote)
    obtain ⟨hc', hw'⟩ := not_or.1 (mt List.mem_cons.2 hslash)
    exact .plain (Ne.symm hc) (Ne.symm hc') (ih hw hw')

theorem blankedIn_literal {quote : Char} {w : List Char} (h : LiteralBody quote w)
    (hquote : quote ≠ '\\') (s : List Char) :
    blankedIn (.literal quote false) (w ++ quote :: s) = blankedIn .code s := by
  induction h with
  | nil => simp [blankedIn, hquote]
  | plain hother hslash hrest ih => simp [blankedIn, hother, hslash, ih]
  | escape hrest ih => simp [blankedIn, ih]

theorem blankedIn_lineComment {w : List Char} (h : '\n' ∉ w) (s : List Char) :
    blankedIn .lineComment (w ++ '\n' :: s) = '\n' :: blankedIn .code s := by
  induction w with
  | nil => simp [blankedIn]
  | cons c w ih =>
    obtain ⟨hc, hw⟩ := not_or.1 (mt List.mem_cons.2 h)
    rw [List.cons_append, blankedIn, if_neg (Ne.symm hc), ih hw]

/-- A block comment goes on to the first star with a slash after it; the star may be the character
before. -/
theorem blankedIn_blockComment {star : Bool} {w : List Char} (h : ¬ ['*', '/'] <:+: w)
    (hstar : star → ¬ ['/'] <+: w) (s : List Char) :
    blankedIn (.blockComment star) (w ++ '*' :: '/' :: s) = blankedIn .code s := by
  induction w generalizing star with
  | nil => simp [blankedIn]
  | cons c w ih =>
    have hw : ¬ ['*', '/'] <:+: w := fun hw => h (hw.trans (List.suffix_cons c w).isInfix)
    have hclosed : ¬ (star && c == '/') := by
      intro hclosed
      obtain ⟨hs, hc⟩ := Bool.and_eq_true_iff.1 hclosed
      obtain rfl := eq_of_beq hc
      exact hstar hs ⟨w, rfl⟩
    -- a star with a slash behind it would close the comment within its body
    have hnext : c == '*' → ¬ ['/'] <+: w := by
      rintro hc ⟨t, rfl⟩
      obtain rfl := eq_of_beq hc
      exact h ⟨[], t, rfl⟩
    rw [List.cons_append, blankedIn, if_neg hclosed, ih hw hnext]

/-- A comment or a literal from its opening to its end, and what blanking leaves of it. -/
inductive Region : List Char → List Char → Prop where
  | literal {quote : Char} {body : List Char} (hquote : isQuote quote)
      (hbody : LiteralBody quote body) : Region (quote :: body ++ [quote]) [' ']
  | blockComment {body : List Char} (hbody : ¬ ['*', '/'] <:+: body) :
      Region (['/', '*'] ++ body ++ ['*', '/']) [' ']
  | lineComment {body : List Char} (hbody : '\n' ∉ body) :
      Region (['/', '/'] ++ body ++ ['\n']) ['\n']

theorem ne_of_isQuote {c d : Char} (hc : isQuote c) (hd : ¬ isQuote d) : c ≠ d := by
  rintro rfl
  exact hd hc

theorem Region.blanked_append {region left : List Char} (h : Region region left) (s : List Char) :
    blanked (region ++ s) = left ++ blanked s := by
  unfold blanked
  cases h with
  | @literal quote body hquote hbody =>
    have hslash : quote ≠ '/' := ne_of_isQuote hquote (by decide)
    have hescape : quote ≠ '\\' := ne_of_isQuote hquote (by decide)
    rw [List.append_assoc, List.cons_append, List.singleton_append,
      blankedIn_cons fun _ => not_opensComment_of_ne hslash _, Mode.leaves, Mode.next,
      if_pos hquote, if_pos hquote, blankedIn_literal hbody hescape]
  | @blockComment body hbody =>
    have hclosed := @blankedIn_blockComment false body hbody (fun hstar => by cases hstar) s
    rw [List.append_assoc, List.append_assoc]
    exact congrArg (' ' :: ·) hclosed
  | lineComment hbody =>
    rw [List.append_assoc, List.append_assoc]
    exact blankedIn_lineComment hbody s

/-- In what is left of a script, a region after a neutral text is one character. -/
theorem blanked_region {p region left : List Char} (hp : Neutral p) (h : Region region left)
    (s : List Char) : blanked (p ++ region ++ s) = blanked p ++ left ++ blanked s := by
  rw [List.append_assoc, hp.blanked_append, h.blanked_append, List.append_assoc]

/-- Regions that leave the same character can stand for each other. -/
theorem formatOf_region {p region region' left : List Char} (hp : Neutral p)
    (h : Region region left) (h' : Region region' left) (s : List Char) :
    formatOf (String.ofList (p ++ region ++ s)) = formatOf (String.ofList (p ++ region' ++ s)) := by
  unfold formatOf
  rw [String.toList_ofList, String.toList_ofList, blanked_region hp h, blanked_region hp h']

/-- What stands in a literal, a block comment or a line comment after a neutral text has no influence
on the form of a script, whatever comes after it. -/
theorem formatOf_of_bodies {p : List Char} (hp : Neutral p) (s : List Char) :
    (∀ quote, isQuote quote → ∀ w w', LiteralBody quote w → LiteralBody quote w' →
      formatOf (String.ofList (p ++ (quote :: w ++ [quote]) ++ s)) =
        formatOf (String.ofList (p ++ (quote :: w' ++ [quote]) ++ s))) ∧
    (∀ w w', ¬ ['*', '/'] <:+: w → ¬ ['*', '/'] <:+: w' →
      formatOf (String.ofList (p ++ (['/', '*'] ++ w ++ ['*', '/']) ++ s)) =
        formatOf (String.ofList (p ++ (['/', '*'] ++ w' ++ ['*', '/']) ++ s))) ∧
    (∀ w w', '\n' ∉ w → '\n' ∉ w' →
      formatOf (String.ofList (p ++ (['/', '/'] ++ w ++ ['\n']) ++ s)) =
        formatOf (String.ofList (p ++ (['/', '/'] ++ w' ++ ['\n']) ++ s))) := by
  refine ⟨?_, ?_, ?_⟩
  · intro quote hquote w w' hw hw'
    exact formatOf_region hp (.literal hquote hw) (.literal hquote hw') s
  · intro w w' hw hw'
    exact formatOf_region hp (.blockComment hw) (.blockComment hw') s
  · intro w w' hw hw'
    exact formatOf_region hp (.lineComment hw) (.lineComment hw') s

/-- Code with two slashes in a literal and a quote in a comment. -/
def quotedSlashes : List Char := "let a = '//' /* don't */;\n".toList

/-- A default export, as the body of a region. -/
def hiddenExport : List Char := "export default {};".toList

/-- Code that exports by name only. -/
def namedExport : List Char := "\nexport { a };\n".toList

theorem formatOf_of_bodies_hidden :
    Neutral quotedSlashes ∧ isQuote '\x22' ∧ LiteralBody '\x22' ('\\' :: '\x22' :: hiddenExport) ∧
    ¬ ['*', '/'] <:+: hiddenExport ∧ '\n' ∉ hiddenExport ∧
    formatOf (String.ofList
        (quotedSlashes ++ ('\x22' :: ('\\' :: '\x22' :: hiddenExport) ++ ['\x22']) ++ namedExport)) =
      formatOf (String.ofList (quotedSlashes ++ ('\x22' :: [] ++ ['\x22']) ++ namedExport)) ∧
    formatOf (String.ofList (quotedSlashes ++ (['/', '*'] ++ hiddenExport ++ ['*', '/']) ++ namedExport)) =
      formatOf (String.ofList (quotedSlashes ++ (['/', '*'] ++ [] ++ ['*', '/']) ++ namedExport)) ∧
    formatOf (String.ofList (quotedSlashes ++ (['/', '/'] ++ hiddenExport ++ ['\n']) ++ namedExport)) =
      formatOf (String.ofList (quotedSlashes ++ (['/', '/'] ++ [] ++ ['\n']) ++ namedExport)) := by
  have hneutral : Neutral quotedSlashes := ⟨by decide, by decide⟩
  have hquote : isQuote '\x22' := by decide
  have hbody : LiteralBody '\x22' ('\\' :: '\x22' :: hiddenExport) :=
    .escape (literalBody_of_notMem (by decide) (by decide))
  have hstar : '*' ∉ hiddenExport := by decide
  have hblock : ¬ ['*', '/'] <:+: hiddenExport := fun h => hstar (h.subset List.mem_cons_self)
  have hempty : ¬ ['*', '/'] <:+: [] := fun h => List.not_mem_nil (h.subset List.mem_cons_self)
  have hline : '\n' ∉ hiddenExport := by decide
  have hbodies := formatOf_of_bodies hneutral namedExport
  refine ⟨hneutral, hquote, hbody, hblock, hline, ?_, ?_, ?_⟩
  · exact hbodies.1 '\x22' hquote _ _ hbody .nil
  · exact hbodies.2.1 hiddenExport [] hblock hempty
  · exact hbodies.2.2 hiddenExport [] hline List.not_mem_nil

end WorkerEnv.Script
