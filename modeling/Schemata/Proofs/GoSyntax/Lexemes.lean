import Schemata.GoSyntax.Lexer
import Schemata.Proofs.Hcl.Lexemes
import Schemata.Proofs.Text.Utf8

/-!
Tokens of Go source without their places. `Cuts` says which lexemes a text is cut into, without a
fault, whatever the places of its characters are. There is a rule for each sort of token that a
type is spelled with: words, numbers and signs that are no part of a longer one.
-/

namespace Schemata.GoSyntax

open Text List

variable {ss : List Spot} {c : Char} {cs tail : List Char} {breaks : Bool} {ls : List Lexeme}

/-- A token without its place and the comments before it. -/
structure Lexeme where
  kind : TokenKind
  text : String
deriving DecidableEq, Repr

def Token.lexeme (t : Token) : Lexeme := ⟨t.kind, t.text⟩

/-- The spots hold the characters, none of which is wrong where it stands. -/
def Holds (ss : List Spot) (cs : List Char) : Prop :=
  ss.map Spot.char = cs ∧ ∀ s ∈ ss, s.isWrong = false

/-- The lexemes of a text. `breaks` tells whether its end stands for a semicolon. -/
def Cuts (breaks : Bool) (cs : List Char) (ls : List Lexeme) : Prop :=
  ∀ stop fuel ss, Holds ss cs → cs.length < fuel →
    (lexFrom stop fuel breaks [] [] ss).map Token.lexeme = ls ∧
      ∀ t ∈ lexFrom stop fuel breaks [] [] ss, t.faults = []

theorem Holds.split {xs ys : List Char} (h : Holds ss (xs ++ ys)) :
    ∃ before after, ss = before ++ after ∧ Holds before xs ∧ Holds after ys := by
  obtain ⟨before, after, rfl, hxs, hys⟩ := map_eq_append_iff.mp h.1
  have hwrong := forall_mem_append.mp h.2
  exact ⟨before, after, rfl, ⟨hxs, hwrong.1⟩, ⟨hys, hwrong.2⟩⟩

theorem Holds.cons (h : Holds ss (c :: cs)) :
    ∃ s rest, ss = s :: rest ∧ s.char = c ∧ s.isWrong = false ∧ Holds rest cs := by
  obtain ⟨s, rest, rfl, hc, hcs⟩ := map_eq_cons_iff.mp h.1
  have hwrong := forall_mem_cons.mp h.2
  exact ⟨s, rest, rfl, hc, hwrong.1, hcs, hwrong.2⟩

theorem Holds.length (h : Holds ss cs) : ss.length = cs.length := by
  rw [← h.1, length_map]

theorem Holds.textOf (h : Holds ss cs) : textOf ss = String.ofList cs := by
  rw [GoSyntax.textOf, h.1]

theorem Holds.wrongPlaces (h : Holds ss cs) (rest : List Spot) : wrongPlaces ss rest = [] := by
  have hnone : ((ss.drop 1).take (ss.length - rest.length)).filter (·.isWrong) = [] := by
    rw [filter_eq_nil_iff]
    intro s hs
    simp [h.2 s (mem_of_mem_drop (mem_of_mem_take hs))]
  rw [GoSyntax.wrongPlaces, hnone, map_nil]

/-! ### Steps -/

theorem cuts_end : Cuts true [] [⟨.semicolon, "\n"⟩, ⟨.endOfFile, ""⟩] := by
  intro stop fuel ss hss hfuel
  obtain ⟨n, rfl⟩ := Nat.exists_eq_succ_of_ne_zero (Nat.ne_of_gt hfuel)
  obtain rfl := map_eq_nil_iff.mp hss.1
  simp [lexFrom, Token.lexeme, wrongPlaces]

/-- What scanning finds at a character that is neither a blank nor begins a comment. -/
theorem cuts_cons {rest : List Char} {kind : TokenKind} {text : String}
    (hblank : isBlank false c = false) (hslash : c ≠ '/') (hkind : kind ≠ .illegal)
    (hrest : Cuts (Token.endsStatement kind text) rest ls) (hlength : rest.length ≤ cs.length)
    (hscan : ∀ stop s ss, Holds (s :: ss) (c :: cs) →
      ∃ after, scanToken stop s ss = { kind, text, rest := after } ∧ Holds after rest) :
    Cuts breaks (c :: cs) (⟨kind, text⟩ :: ls) := by
  intro stop fuel ss hss hfuel
  have hwrong := hss.wrongPlaces
  obtain ⟨s, more, rfl, hc, -, -⟩ := hss.cons
  obtain ⟨n, rfl⟩ := Nat.exists_eq_succ_of_ne_zero (Nat.ne_of_gt (Nat.zero_lt_of_lt hfuel))
  obtain ⟨after, htoken, hafter⟩ := hscan stop s more hss
  have hbreak : c ≠ '\n' ∧ isBlank breaks c = false := by
    simp only [isBlank, Bool.not_false, Bool.and_true, Bool.or_eq_false_iff,
      beq_eq_false_iff_ne] at hblank
    simp [isBlank, hblank]
  have hstop : (s :: more).dropWhile (isBlank breaks ·.char) = s :: more := by
    simp [hc, hbreak.2]
  obtain ⟨hlexemes, hfaults⟩ := hrest stop n after hafter (by simp at hfuel; omega)
  simp only [lexFrom, hstop, hc, beq_eq_false_iff_ne.mpr hbreak.1, beq_eq_false_iff_ne.mpr hslash,
    Bool.false_and, Bool.false_eq_true, if_false, htoken, hkind, hwrong, append_nil,
    map_cons, forall_mem_cons]
  exact ⟨by rw [hlexemes]; rfl, trivial, hfaults⟩

/-! ### Words -/

def isWordChar (c : Char) : Bool := isLetter c || isDigit c

/-- What may stand behind a word. -/
def EndsWord (tail : List Char) : Prop := ∀ c ∈ tail.head?, isWordChar c = false

theorem Holds.span {p : Char → Bool} {word : List Char} (h : Holds ss (word ++ tail))
    (hword : ∀ c ∈ word, p c = true) (htail : ∀ c ∈ tail.head?, p c = false) :
    ∃ before after, ss.span (fun s => p s.char) = (before, after) ∧ ss = before ++ after ∧
      Holds before word ∧ Holds after tail := by
  obtain ⟨before, after, rfl, hbefore, hafter⟩ := h.split
  refine ⟨before, after, ?_, rfl, hbefore, hafter⟩
  have hall : ∀ s ∈ before, p s.char = true := by
    intro s hs
    exact hword _ (hbefore.1 ▸ mem_map_of_mem hs)
  have hstops : ∀ s ∈ after.head?, p s.char = false := by
    intro s hs
    refine htail _ ?_
    rw [← hafter.1, head?_map, Option.mem_def.mp hs]
    rfl
  rw [span_eq_takeWhile_dropWhile, takeWhile_append_of_pos hall, dropWhile_append_of_pos hall]
  cases after with
  | nil => simp
  | cons s after => simp [hstops s rfl]

def wordKind (word : String) : TokenKind :=
  if keywords.contains word then .keyword else .identifier

/-- An identifier or a keyword: a letter with letters and digits behind it. -/
def isWord : List Char → Bool
  | [] => false
  | c :: cs => isLetter c && cs.all isWordChar

theorem isWord_iff {word : List Char} : isWord word = true ↔
    ∃ c cs, word = c :: cs ∧ isLetter c = true ∧ ∀ d ∈ word, isWordChar d = true := by
  cases word with
  | nil => simp [isWord]
  | cons c cs =>
    have hfirst : isLetter c = true → isWordChar c = true := fun h => by simp [isWordChar, h]
    simp only [isWord, Bool.and_eq_true, all_eq_true, forall_mem_cons]
    constructor
    · rintro ⟨hc, hcs⟩
      exact ⟨c, cs, rfl, hc, hfirst hc, hcs⟩
    · rintro ⟨_, _, ⟨⟩, hc, -, hcs⟩
      exact ⟨hc, hcs⟩

theorem not_isDigit_of_isLetter (h : isLetter c = true) : c.isDigit = false := by
  by_contra hdigit
  rw [Bool.not_eq_false] at hdigit
  have hascii := (Hcl.isDigit_iff_toNat c).mp hdigit
  have hunderscore : c ≠ '_' := by
    rintro rfl
    cases hdigit
  simp only [isLetter, Hcl.not_isAlpha_of_isDigit hdigit, beq_eq_false_iff_ne.mpr hunderscore,
    Bool.false_or, Bool.and_eq_true, decide_eq_true_eq] at h
  omega

theorem isBlank_of_isLetter (h : isLetter c = true) : isBlank false c = false := by
  simp only [isBlank, Bool.not_false, Bool.and_true, Bool.or_eq_false_iff, beq_eq_false_iff_ne]
  refine ⟨⟨⟨?_, ?_⟩, ?_⟩, ?_⟩ <;> rintro rfl <;> revert h <;> decide

theorem cuts_word {word : String} (hword : isWord word.toList = true) (htail : EndsWord tail)
    (hrest : Cuts (Token.endsStatement (wordKind word) word) tail ls) :
    Cuts breaks (word.toList ++ tail) (⟨wordKind word, word⟩ :: ls) := by
  obtain ⟨c, cs, hchars, hletter, hall⟩ := isWord_iff.mp hword
  have htext : String.ofList (c :: cs) = word := by rw [← hchars, String.ofList_toList]
  rw [hchars] at hall ⊢
  have hslash : c ≠ '/' := by
    rintro rfl
    revert hletter
    decide
  have hkind : wordKind word ≠ .illegal := by
    rw [wordKind]
    split <;> decide
  refine cuts_cons (isBlank_of_isLetter hletter) hslash hkind hrest (by simp) ?_
  intro stop s ss hss
  have hc : s.char = c := (cons.inj hss.1).1
  obtain ⟨before, after, hspan, -, hbefore, hafter⟩ := Holds.span hss hall htail
  refine ⟨after, ?_, hafter⟩
  simp only [isWordChar] at hspan
  simp only [scanToken, hc, hletter, if_true, hspan, hbefore.textOf, htext, wordKind]

/-! ### Signs -/

/-- A sign that is no part of a longer one with the characters behind it. -/
def IsSign (c : Char) (tail : List Char) : Prop :=
  c ∈ ['[', ']', '{', '}', '*', '.'] ∧
    operators.find? (fun op => (c :: tail).take op.length == op.toList) = some c.toString ∧
    ∀ d ∈ tail.head?, d.isDigit = false ∨ c ≠ '.'

theorem cuts_sign (hsign : IsSign c tail)
    (hrest : Cuts (Token.endsStatement .operator c.toString) tail ls) :
    Cuts breaks (c :: tail) (⟨.operator, c.toString⟩ :: ls) := by
  obtain ⟨hc, hfind, hnumber⟩ := hsign
  have hplain : isBlank false c = false ∧ c ≠ '/' ∧ isLetter c = false ∧ c.isDigit = false := by
    revert hc
    simp only [mem_cons, not_mem_nil, or_false]
    rintro (rfl | rfl | rfl | rfl | rfl | rfl) <;> decide
  refine cuts_cons hplain.1 hplain.2.1 (by decide) hrest le_rfl ?_
  intro stop s ss hss
  obtain ⟨_, _, hsplit, hchar, -, hafter⟩ := hss.cons
  obtain ⟨rfl, rfl⟩ := cons.inj hsplit
  refine ⟨ss, ?_, hafter⟩
  have hoperator : operator? (s :: ss) = some (c.toString, ss) := by
    have hchars (op : String) :
        ((s :: ss).take op.length).map Spot.char = (c :: tail).take op.length := by
      rw [map_take, hss.1]
    simp only [operator?, hchars, hfind]
    simp
  have hstarts : startsNumber (s :: ss) = false := by
    cases ss with
    | nil => simp [startsNumber, hchar, hplain.2.2.2]
    | cons t ss =>
      have htail : tail.head? = some t.char := by rw [← hafter.1]; rfl
      have ht := hnumber t.char htail
      simp only [startsNumber, hchar, hplain.2.2.2, Bool.false_or, Bool.and_eq_false_iff,
        beq_eq_false_iff_ne]
      exact ht.symm
  simp only [scanToken, hchar, hplain.2.2.1, hstarts, hoperator, Bool.false_eq_true, if_false]
  revert hc
  simp only [mem_cons, not_mem_nil, or_false]
  rintro (rfl | rfl | rfl | rfl | rfl | rfl) <;> rfl

/-- Only an operator that begins with the first character is found. -/
theorem find?_operators (c : Char) (tail : List Char) :
    operators.find? (fun op => (c :: tail).take op.length == op.toList) =
      (operators.filter fun op => op.toList.head? == some c).find?
        fun op => (c :: tail).take op.length == op.toList := by
  have hne : ∀ op ∈ operators, op.toList ≠ [] := by decide
  rw [find?_filter]
  refine find?_congr fun op hop => ?_
  obtain ⟨d, ds, hchars⟩ := exists_cons_of_ne_nil (hne op hop)
  rw [← String.length_toList, hchars]
  by_cases hd : c = d
  · rw [Bool.eq_iff_iff]
    simp [hd]
  · simp [hd, Ne.symm hd]

theorem isSign_bracket (hc : c ∈ ['[', ']', '{', '}']) (tail : List Char) : IsSign c tail := by
  have hsign : c ∈ ['[', ']', '{', '}', '*', '.'] ∧ c ≠ '.' ∧
      (operators.filter fun op => op.toList.head? == some c) = [c.toString] := by
    simp only [mem_cons, not_mem_nil, or_false] at hc
    rcases hc with rfl | rfl | rfl | rfl <;> decide
  refine ⟨hsign.1, ?_, fun d _ => .inr hsign.2.1⟩
  rw [find?_operators, hsign.2.2]
  simp

theorem isSign_star (htail : tail.head? ≠ some '=') : IsSign '*' tail := by
  have hfound : (operators.filter fun op => op.toList.head? == some '*') = ["*=", "*"] := by
    decide
  have hlonger : (('*' :: tail).take "*=".length == "*=".toList) = false := by
    change (('*' :: tail).take 2 == ['*', '=']) = false
    cases tail with
    | nil => rfl
    | cons d tail => simpa using htail
  refine ⟨by decide, ?_, by simp⟩
  rw [find?_operators, hfound, find?, hlonger]
  rfl

theorem isSign_point (hletter : ∀ d ∈ tail.head?, isLetter d = true) : IsSign '.' tail := by
  have hfound : (operators.filter fun op => op.toList.head? == some '.') = ["...", "."] := by
    decide
  have hlonger : (('.' :: tail).take "...".length == "...".toList) = false := by
    change (('.' :: tail).take 3 == ['.', '.', '.']) = false
    cases tail with
    | nil => rfl
    | cons d tail =>
      have hd : d ≠ '.' := by
        rintro rfl
        exact absurd (hletter '.' rfl) (by decide)
      simp [hd]
  refine ⟨by decide, ?_, fun d hd => .inl ?_⟩
  · rw [find?_operators, hfound, find?, hlonger]
    rfl
  · exact not_isDigit_of_isLetter (hletter d hd)

/-! ### Numbers -/

/-- The digits of a number above zero, in base ten. -/
def IsNumber (digits : List Char) : Prop :=
  ∃ d ds, digits = d :: ds ∧ d ≠ '0' ∧ ∀ c ∈ digits, c.isDigit = true

theorem isWordChar_of_isDigit (h : c.isDigit = true) : isWordChar c = true := by
  simp [isWordChar, isDigit, h]

theorem EndsWord.not_isDigit (h : EndsWord tail) (hc : c ∈ tail.head?) :
    (c == '_' || c.isDigit) = false := by
  have hword := h c hc
  rw [Bool.or_eq_false_iff, beq_eq_false_iff_ne]
  constructor
  · rintro rfl
    revert hword
    decide
  · by_contra hdigit
    exact absurd (isWordChar_of_isDigit (by simpa using hdigit)) (by simp [hword])

/-- What goes on a number would be part of a word. -/
theorem EndsWord.head_ne (h : EndsWord tail) {d : Char} (hd : isWordChar d = true) :
    tail.head? ≠ some d := fun hc =>
  absurd hd (by rw [h d hc]; decide)

theorem EndsWord.lowerAscii (h : EndsWord tail) (hc : c ∈ tail.head?) : lowerAscii c = c := by
  refine if_neg fun hupper => ?_
  have hletter : c.isUpper = true := decide_eq_true hupper
  have hword : isWordChar c = true := by simp [isWordChar, isLetter, Char.isAlpha, hletter]
  exact h.head_ne hword hc

theorem scanExponent_of_endsWord (htail : EndsWord tail) (hss : Holds ss tail) (stop : Place) :
    scanExponent stop none false ss = (false, ss, []) := by
  have hletter : (ss.head?.map (GoSyntax.lowerAscii ·.char)).getD ' ' ≠ 'e' ∧
      (ss.head?.map (GoSyntax.lowerAscii ·.char)).getD ' ' ≠ 'p' := by
    cases ss with
    | nil => decide
    | cons s ss =>
      have hs : tail.head? = some s.char := by rw [← hss.1]; rfl
      rw [head?_cons, Option.map_some, Option.getD_some, htail.lowerAscii hs]
      constructor <;> intro hchar <;> rw [hchar] at hs
      · exact htail.head_ne (by decide) hs
      · exact htail.head_ne (by decide) hs
  simp [scanExponent, hletter]

theorem Holds.head_test (h : Holds ss cs) {d : Char} (hd : cs.head? ≠ some d) :
    (ss.head?.map (·.char == d)).getD false = false := by
  cases ss with
  | nil => rfl
  | cons s ss =>
    have hs : cs.head? = some s.char := by rw [← h.1]; rfl
    rw [hs] at hd
    simpa using hd

theorem cuts_number {digits : String} (hdigits : IsNumber digits.toList) (htail : EndsWord tail)
    (hpoint : tail.head? ≠ some '.') (hrest : Cuts true tail ls) :
    Cuts breaks (digits.toList ++ tail) (⟨.integer, digits⟩ :: ls) := by
  obtain ⟨d, ds, hchars, hzero, hall⟩ := hdigits
  have htext : String.ofList (d :: ds) = digits := by rw [← hchars, String.ofList_toList]
  rw [hchars] at hall ⊢
  have hd : d.isDigit = true := hall d mem_cons_self
  have hplain : isBlank false d = false ∧ d ≠ '/' := by
    simp only [isBlank, Bool.not_false, Bool.and_true, Bool.or_eq_false_iff, beq_eq_false_iff_ne]
    refine ⟨⟨⟨⟨?_, ?_⟩, ?_⟩, ?_⟩, ?_⟩ <;> rintro rfl <;> cases hd
  refine cuts_cons hplain.1 hplain.2 (by decide) hrest (by simp) ?_
  intro stop s ss hss
  have hc : s.char = d := (cons.inj hss.1).1
  have hletter : isLetter d = false := by
    by_contra h
    exact absurd (not_isDigit_of_isLetter (by simpa using h)) (by simp [hd])
  have hstarts : startsNumber (s :: ss) = true := by
    cases ss <;> simp [startsNumber, hc, hd]
  have hbase : numberBase (s :: ss) = (10, none, 0) := by
    cases ss <;> simp [numberBase, hc, hzero]
  have hpart : ∀ c ∈ d :: ds, (c == '_' || c.isDigit) = true := by
    intro c hmem
    simp [hall c hmem]
  obtain ⟨before, after, hspan, hsplit, hbefore, hafter⟩ :=
    Holds.span hss hpart fun c hc => htail.not_isDigit hc
  refine ⟨after, ?_, hafter⟩
  have hscan : scanDigits 10 (s :: ss) = (before, after) := hspan
  have hfloat := hafter.head_test hpoint
  have himaginary := hafter.head_test (htail.head_ne (by decide : isWordChar 'i' = true))
  have hmem (t : Spot) (ht : t ∈ before) : t.char.isDigit = true :=
    hall _ (hbefore.1 ▸ mem_map_of_mem ht)
  have hmark (t : Spot) (ht : t ∈ before) : (t.char == '_') = false := by
    rw [beq_eq_false_iff_ne]
    intro hchar
    have hdigit := hmem t ht
    rw [hchar] at hdigit
    cases hdigit
  have hhas : hasDigit before = true := by
    obtain ⟨t, more, rfl, -, -, -⟩ := hbefore.cons
    simp [hasDigit, bne, hmark t mem_cons_self]
  have hgreat : before.find? (fun s => s.char != '_' && decide (s.char.toNat ≥ 48 + 10)) = none := by
    rw [find?_eq_none]
    intro t ht
    have hdigit := (Hcl.isDigit_iff_toNat t.char).mp (hmem t ht)
    have hsmall : ¬t.char.toNat ≥ 48 + 10 := by omega
    simp [hsmall]
  have hany : before.any (·.char == '_') = false := by
    rw [any_eq_false]
    intro t ht
    simp [hmark t ht]
  have htake : (s :: ss).take ((s :: ss).length - after.length) = before := by
    rw [hsplit]
    simp
  simp only [scanToken, hc, hletter, hstarts, if_true, Bool.false_eq_true, if_false, scanNumber, hbase,
    drop_zero, hscan, hfloat, himaginary, scanExponent_of_endsWord htail hafter, htake, hhas,
    hbefore.textOf, htext, hgreat, hany]
  simp

/-! ### Whole texts -/

/-- The characters that may stand nowhere, or only first. -/
def isMisplaced (c : Char) : Bool := c == '\x00' || c == byteOrderMark

theorem holds_spots (h : ∀ c ∈ cs, isMisplaced c = false) (isFirst : Bool) (place : Place) :
    Holds (spots isFirst place (cs.map some)) cs := by
  induction cs generalizing isFirst place with
  | nil => exact ⟨rfl, by simp [spots]⟩
  | cons c cs ih =>
    rw [forall_mem_cons] at h
    have hrest := ih h.2
    have hc := h.1
    rw [isMisplaced, Bool.or_eq_false_iff] at hc
    simp only [map_cons, spots, Holds, forall_mem_cons, Option.getD_some]
    exact ⟨by rw [(hrest _ _).1], by simp [hc.1, hc.2], (hrest _ _).2⟩

theorem lex_of_cuts {text : String} (h : Cuts false text.toList ls)
    (hplain : ∀ c ∈ text.toList, isMisplaced c = false) :
    (lex text.toUTF8.toList).map Token.lexeme = ls ∧
      ∀ t ∈ lex text.toUTF8.toList, t.faults = [] := by
  have hspots := holds_spots hplain true ⟨1, 1⟩
  simp only [lex, Utf8.decode_toUTF8]
  generalize spots true ⟨1, 1⟩ (text.toList.map some) = all at hspots
  cases all with
  | nil => exact h _ _ [] hspots (by rw [← hspots.length]; simp)
  | cons s ss =>
    have hs := hplain s.char (by rw [← hspots.1]; simp)
    rw [isMisplaced, Bool.or_eq_false_iff] at hs
    have hfirst : (((s :: ss).take 1).filter (·.isWrong)).map Spot.place = [] := by
      simp [hspots.2 s mem_cons_self]
    simp only [hs.2, Bool.false_eq_true, if_false, hfirst]
    exact h _ _ (s :: ss) hspots (by rw [← hspots.length]; omega)

end Schemata.GoSyntax
