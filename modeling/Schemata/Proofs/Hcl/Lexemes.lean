import Mathlib
import Schemata.Hcl.Lexer

/-!
Tokens without their places. Where a token stands has no part in how the text behind it is cut,
so the lexemes of a text can be told from its characters alone: each lemma here says how one
word, number, sign or quotation is cut off, with the characters that follow it present.
-/

namespace Schemata.Hcl

open Text List

variable {cs rest tail : List Char} {c : Char}

/-- A token without its place and the blanks before it. -/
structure Lexeme where
  kind : TokenKind
  text : List Char
deriving DecidableEq, Repr

def Token.lexeme (t : Token) : Lexeme := ⟨t.kind, t.text⟩

/-- The lexemes of a text, the end of the file last. -/
def lexemes (modes : List Mode) (cs : List Char) : List Lexeme :=
  (lexFrom modes {} cs).map Token.lexeme

/-! ### One step -/

/-- How many blanks are skipped before the next token. -/
def blanksBefore (modes : List Mode) (cs : List Char) : Nat :=
  if skipsBlanks modes then (cs.takeWhile isSpace).length else 0

theorem lexFrom_of_end {modes : List Mode} (h : cs.drop (blanksBefore modes cs) = [])
    (place : Place) : (lexFrom modes place cs).map Token.lexeme = [⟨.endOfFile, []⟩] := by
  rw [blanksBefore] at h
  rw [lexFrom]
  split
  next => rfl
  next c rest hcons => exact absurd (h.symm.trans hcons) (by simp)

theorem lexFrom_of_token {modes modes' : List Mode} {kind : TokenKind} {n : Nat}
    (h : cs.drop (blanksBefore modes cs) = c :: rest)
    (hnext : nextToken modes (c :: rest) = (kind, n, modes')) (place : Place) :
    ∃ place', (lexFrom modes place cs).map Token.lexeme =
      ⟨kind, c :: rest.take (n - 1)⟩ ::
        (lexFrom modes' place' (rest.drop (n - 1))).map Token.lexeme := by
  rw [blanksBefore] at h
  rw [lexFrom]
  split
  next hnil => exact absurd (h.symm.trans hnil) (by simp)
  next d more hcons =>
    obtain ⟨rfl, rfl⟩ := List.cons.inj (h.symm.trans hcons)
    rw [hnext]
    exact ⟨_, rfl⟩

theorem map_lexeme_lexFrom (modes : List Mode) (place : Place) (cs : List Char) :
    (lexFrom modes place cs).map Token.lexeme = lexemes modes cs := by
  rw [lexemes]
  generalize ({} : Place) = start
  -- each token takes a character, so the text gets shorter
  induction hlength : cs.length using Nat.strong_induction_on generalizing modes place start cs with
  | _ length ih =>
    cases hrest : cs.drop (blanksBefore modes cs) with
    | nil => rw [lexFrom_of_end hrest, lexFrom_of_end hrest]
    | cons c rest =>
      obtain ⟨p, hp⟩ := lexFrom_of_token hrest rfl place
      obtain ⟨q, hq⟩ := lexFrom_of_token hrest rfl start
      have hshorter := congrArg List.length hrest
      simp only [length_drop, length_cons] at hshorter
      rw [hp, hq, ih _ (by simp only [length_drop]; omega) _ p _ q rfl]

theorem lexemes_nil (modes : List Mode) : lexemes modes [] = [⟨.endOfFile, []⟩] :=
  lexFrom_of_end (by simp) _

theorem lexemes_of_nextToken {modes modes' : List Mode} {kind : TokenKind} {n : Nat}
    (hc : skipsBlanks modes = true → isSpace c = false)
    (hnext : nextToken modes (c :: rest) = (kind, n + 1, modes')) :
    lexemes modes (c :: rest) = ⟨kind, c :: rest.take n⟩ :: lexemes modes' (rest.drop n) := by
  have hblanks : blanksBefore modes (c :: rest) = 0 := by
    rw [blanksBefore]
    split
    next h => simp [hc h]
    next => rfl
  obtain ⟨place, h⟩ := lexFrom_of_token (by rw [hblanks, drop_zero]) hnext {}
  rw [lexemes, h, map_lexeme_lexFrom, Nat.add_sub_cancel]

/-! ### Characters -/

theorem isDigit_iff_toNat (c : Char) : c.isDigit = true ↔ 48 ≤ c.toNat ∧ c.toNat ≤ 57 := by
  simp only [Char.isDigit, Bool.and_eq_true, decide_eq_true_eq, ge_iff_le, UInt32.le_iff_toNat_le]
  rfl

theorem not_isAlpha_of_isDigit (hc : c.isDigit = true) : c.isAlpha = false := by
  rw [isDigit_iff_toNat] at hc
  simp only [Char.isAlpha, Char.isUpper, Char.isLower, Bool.or_eq_false_iff,
    Bool.and_eq_false_iff, decide_eq_false_iff_not, ge_iff_le, UInt32.le_iff_toNat_le]
  change ¬(65 ≤ c.toNat ∧ c.toNat ≤ 90) ∧ (¬97 ≤ c.toNat ∨ ¬c.toNat ≤ 122)
  omega

theorem not_isWordStart_of_isDigit (hc : c.isDigit = true) : isWordStart c = false := by
  have hascii : c.toNat < 0x80 := by
    have := (isDigit_iff_toNat c).mp hc
    omega
  have hunderscore : c ≠ '_' := by
    rintro rfl
    cases hc
  simp [isWordStart, isIdentifierStart, hascii, not_isAlpha_of_isDigit hc, hunderscore]

theorem isWordPart_of_isDigit (hc : c.isDigit = true) : isWordPart c = true := by
  have hascii : c.toNat < 0x80 := by
    have := (isDigit_iff_toNat c).mp hc
    omega
  simp [isWordPart, isIdentifierPart, hascii, hc, Char.isAlphanum]

theorem isWordPart_of_isWordStart (hc : isWordStart c = true) : isWordPart c = true := by
  rcases Bool.or_eq_true_iff.mp hc with hstart | hunderscore
  · rw [isIdentifierStart] at hstart
    rw [isWordPart, isIdentifierPart]
    split at hstart <;> simp_all [Char.isAlphanum]
  · rw [beq_iff_eq.mp hunderscore]
    rfl

/-- The characters that begin comments, line breaks, templates and braces. -/
def markers : List Char := ['#', '/', '\n', '\r', '{', '}', '~', '"', '<']

theorem not_marker_of_isWordPart (hc : isWordPart c = true) : c ∉ markers := by
  have hmarkers : ∀ d ∈ markers, isWordPart d = false := by
    simp only [markers, forall_mem_cons]
    exact ⟨rfl, rfl, rfl, rfl, rfl, rfl, rfl, rfl, rfl, by simp⟩
  intro hmem
  exact absurd (hc.symm.trans (hmarkers c hmem)) (by simp)

theorem not_isSpace_of_isWordPart (hc : isWordPart c = true) : isSpace c = false := by
  rw [isSpace, Bool.or_eq_false_iff, beq_eq_false_iff_ne, beq_eq_false_iff_ne]
  constructor <;> rintro rfl <;> cases hc

/-! ### Words, numbers and signs -/

/-- What may stand behind a word: the end of the text, or a character that is no part of one. -/
def EndsWord (tail : List Char) : Prop := ∀ c ∈ tail.head?, isWordPart c = false

/-- What may stand behind a number; a point might belong to it. -/
def EndsNumber (tail : List Char) : Prop := EndsWord tail ∧ tail.head? ≠ some '.'

theorem takeWhile_append_tail {p : Char → Bool} (hcs : ∀ c ∈ cs, p c = true)
    (htail : ∀ c ∈ tail.head?, p c = false) : (cs ++ tail).takeWhile p = cs := by
  rw [takeWhile_append_of_pos hcs]
  cases tail with
  | nil => simp
  | cons c tail => simp [htail c rfl]

theorem numberTail_digits {ds : List Char} (hds : ∀ d ∈ ds, d.isDigit = true)
    (htail : EndsNumber tail) (taken : Nat) :
    numberTail 0 taken (ds ++ tail) = taken + ds.length := by
  induction ds generalizing taken with
  | nil =>
    cases tail with
    | nil => rfl
    | cons c tail =>
      have hc : isWordPart c = false := htail.1 c rfl
      have hne : ∀ d, isWordPart d = true → c ≠ d := by
        rintro d hd rfl
        exact absurd (hd.symm.trans hc) (by simp)
      have hdigit : c.isDigit = false := by
        by_contra h
        exact absurd (isWordPart_of_isDigit (by simpa using h)) (by simp [hc])
      have hpoint : c ≠ '.' := fun h => htail.2 (by rw [h]; rfl)
      rw [nil_append, numberTail.eq_def]
      simp [hdigit, hpoint, hne 'e' rfl, hne 'E' rfl]
  | cons d ds ih =>
    rw [forall_mem_cons] at hds
    have hstep : numberTail 0 taken (d :: (ds ++ tail)) =
        numberTail 0 (taken + 1) (ds ++ tail) := by
      rw [numberTail.eq_def]
      simp [hds.1]
    rw [cons_append, hstep, ih hds.2, length_cons]
    omega

section Plain

variable {depth : Nat} {outer : List Mode}

theorem plainToken_of_not_marker (hc : c ∉ markers) :
    plainToken depth outer (c :: rest) =
      if c.isDigit then (.number, numberTail 0 1 rest, .plain depth :: outer)
      else if isWordStart c then
        (.identifier, (rest.takeWhile isWordPart).length + 1, .plain depth :: outer)
      else ((signAt (c :: rest)).1, (signAt (c :: rest)).2, .plain depth :: outer) := by
  simp only [markers, mem_cons, not_or] at hc
  unfold plainToken
  split <;> simp_all

@[simp] theorem lexemes_blank (cs : List Char) :
    lexemes (.plain depth :: outer) (' ' :: cs) = lexemes (.plain depth :: outer) cs := by
  have hdrop : (' ' :: cs).drop (blanksBefore (.plain depth :: outer) (' ' :: cs)) =
      cs.drop (blanksBefore (.plain depth :: outer) cs) := by
    simp [blanksBefore, skipsBlanks, isSpace]
  cases hrest : cs.drop (blanksBefore (.plain depth :: outer) cs) with
  | nil => rw [lexemes, lexemes, lexFrom_of_end hrest, lexFrom_of_end (hdrop.trans hrest)]
  | cons c rest =>
    obtain ⟨p, hp⟩ := lexFrom_of_token hrest rfl {}
    obtain ⟨q, hq⟩ := lexFrom_of_token (hdrop.trans hrest) rfl {}
    rw [lexemes, lexemes, hp, hq, map_lexeme_lexFrom, map_lexeme_lexFrom]

theorem lexemes_word {w : List Char} (hw : isIdentifier w = true) (htail : EndsWord tail) :
    lexemes (.plain depth :: outer) (w ++ tail) =
      ⟨.identifier, w⟩ :: lexemes (.plain depth :: outer) tail := by
  cases w with
  | nil => cases hw
  | cons c cs =>
    obtain ⟨hc, hcs⟩ := Bool.and_eq_true_iff.mp hw
    have hpart := isWordPart_of_isWordStart hc
    have hdigit : c.isDigit = false := by
      by_contra h
      exact absurd (not_isWordStart_of_isDigit (by simpa using h)) (by simp [hc])
    have hword : (cs ++ tail).takeWhile isWordPart = cs :=
      takeWhile_append_tail (all_eq_true.mp hcs) htail
    have hnext : nextToken (.plain depth :: outer) (c :: (cs ++ tail)) =
        (.identifier, cs.length + 1, .plain depth :: outer) := by
      rw [nextToken, plainToken_of_not_marker (not_marker_of_isWordPart hpart), hword, hdigit, hc]
      rfl
    rw [cons_append, lexemes_of_nextToken (fun _ => not_isSpace_of_isWordPart hpart) hnext]
    simp

theorem lexemes_number {ds : List Char} (hne : ds ≠ []) (hds : ∀ d ∈ ds, d.isDigit = true)
    (htail : EndsNumber tail) :
    lexemes (.plain depth :: outer) (ds ++ tail) =
      ⟨.number, ds⟩ :: lexemes (.plain depth :: outer) tail := by
  cases ds with
  | nil => exact absurd rfl hne
  | cons d ds =>
    rw [forall_mem_cons] at hds
    have hpart := isWordPart_of_isDigit hds.1
    have hnext : nextToken (.plain depth :: outer) (d :: (ds ++ tail)) =
        (.number, ds.length + 1, .plain depth :: outer) := by
      rw [nextToken, plainToken_of_not_marker (not_marker_of_isWordPart hpart), if_pos hds.1,
        numberTail_digits hds.2 htail, Nat.add_comm]
    rw [cons_append, lexemes_of_nextToken (fun _ => not_isSpace_of_isWordPart hpart) hnext]
    simp

theorem lexemes_openParen (cs : List Char) :
    lexemes (.plain depth :: outer) ('(' :: cs) =
      ⟨.openParen, ['(']⟩ :: lexemes (.plain depth :: outer) cs :=
  lexemes_of_nextToken (n := 0) (fun _ => rfl) rfl

theorem lexemes_closeParen (cs : List Char) :
    lexemes (.plain depth :: outer) (')' :: cs) =
      ⟨.closeParen, [')']⟩ :: lexemes (.plain depth :: outer) cs :=
  lexemes_of_nextToken (n := 0) (fun _ => rfl) rfl

theorem lexemes_comma (cs : List Char) :
    lexemes (.plain depth :: outer) (',' :: cs) =
      ⟨.comma, [',']⟩ :: lexemes (.plain depth :: outer) cs :=
  lexemes_of_nextToken (n := 0) (fun _ => rfl) rfl

/-- A blank behind the sign keeps it from being the beginning of a longer one. -/
theorem lexemes_equal (cs : List Char) :
    lexemes (.plain depth :: outer) ('=' :: ' ' :: cs) =
      ⟨.equal, ['=']⟩ :: lexemes (.plain depth :: outer) (' ' :: cs) :=
  lexemes_of_nextToken (n := 0) (fun _ => rfl) rfl

theorem lexemes_dot (hc : isWordStart c = true) (cs : List Char) :
    lexemes (.plain depth :: outer) ('.' :: c :: cs) =
      ⟨.dot, ['.']⟩ :: lexemes (.plain depth :: outer) (c :: cs) := by
  have hpoint : c ≠ '.' := by
    rintro rfl
    cases hc
  have hsign : signAt ('.' :: c :: cs) = (.dot, 1) := by simp [signAt, hpoint]
  refine lexemes_of_nextToken (n := 0) (fun _ => rfl) ?_
  rw [nextToken, plainToken_of_not_marker (by decide), hsign]
  rfl

theorem lexemes_newline (cs : List Char) :
    lexemes (.plain depth :: outer) ('\n' :: cs) =
      ⟨.newline, ['\n']⟩ :: lexemes (.plain depth :: outer) cs :=
  lexemes_of_nextToken (n := 0) (fun _ => rfl) rfl

theorem lexemes_openBrace (cs : List Char) :
    lexemes (.plain depth :: outer) ('{' :: cs) =
      ⟨.openBrace, ['{']⟩ :: lexemes (.plain (depth + 1) :: outer) cs :=
  lexemes_of_nextToken (n := 0) (fun _ => rfl) rfl

theorem lexemes_closeBrace (cs : List Char) :
    lexemes (.plain (depth + 1) :: outer) ('}' :: cs) =
      ⟨.closeBrace, ['}']⟩ :: lexemes (.plain depth :: outer) cs :=
  lexemes_of_nextToken (n := 0) (fun _ => rfl) rfl

end Plain

end Schemata.Hcl
