import Schemata.GoSyntax.File
import Schemata.GoSyntax.TypeReading
import Schemata.Proofs.GoSyntax.Lexemes
import Schemata.Schema.Show

/-!
Go types as they are spelled. A form is a type without the places of its parts. Its text is cut
into its lexemes, reading them gives an expression of the form, and what a reader makes of such an
expression depends on the form alone.
-/

namespace Schemata.GoSyntax

open Text List

variable {length : Int64}

inductive TypeForm where
  | name (text : String)
  | qualified (package text : String)
  | pointer (elem : TypeForm)
  | slice (elem : TypeForm)
  | array (length : Int64) (elem : TypeForm)
  | map (key value : TypeForm)
  /-- A struct without fields. -/
  | empty
deriving DecidableEq, Repr

namespace TypeForm

def chars : TypeForm → List Char
  | .name text => text.toList
  | .qualified package text => package.toList ++ '.' :: text.toList
  | .pointer elem => '*' :: elem.chars
  | .slice elem => '[' :: ']' :: elem.chars
  | .array length elem => '[' :: ((showInt length).toList ++ ']' :: elem.chars)
  | .map key value => "map".toList ++ '[' :: (key.chars ++ ']' :: value.chars)
  | .empty => "struct".toList ++ ['{', '}']

def text (g : TypeForm) : String := String.ofList g.chars

def lexemes : TypeForm → List Lexeme
  | .name text => [⟨.identifier, text⟩]
  | .qualified package text => [⟨.identifier, package⟩, ⟨.operator, "."⟩, ⟨.identifier, text⟩]
  | .pointer elem => ⟨.operator, "*"⟩ :: elem.lexemes
  | .slice elem => ⟨.operator, "["⟩ :: ⟨.operator, "]"⟩ :: elem.lexemes
  | .array length elem =>
    ⟨.operator, "["⟩ :: ⟨.integer, showInt length⟩ :: ⟨.operator, "]"⟩ :: elem.lexemes
  | .map key value =>
    ⟨.keyword, "map"⟩ :: ⟨.operator, "["⟩ :: (key.lexemes ++ ⟨.operator, "]"⟩ :: value.lexemes)
  | .empty => [⟨.keyword, "struct"⟩, ⟨.operator, r"{"⟩, ⟨.operator, r"}"⟩]

end TypeForm

/-- A word that is no keyword. -/
def isName (text : String) : Bool := isWord text.toList && !keywords.contains text

/-- Names are identifiers and lengths are above zero. -/
def TypeForm.IsLegal : TypeForm → Prop
  | .name text => isName text = true
  | .qualified package text => isName package = true ∧ isName text = true
  | .pointer elem | .slice elem => elem.IsLegal
  | .array length elem => 0 < length ∧ elem.IsLegal
  | .map key value => key.IsLegal ∧ value.IsLegal
  | .empty => True

instance TypeForm.decidableIsLegal : (g : TypeForm) → Decidable g.IsLegal
  | .name _ => inferInstanceAs (Decidable (_ = true))
  | .qualified _ _ => inferInstanceAs (Decidable (_ ∧ _))
  | .pointer elem | .slice elem => elem.decidableIsLegal
  | .array _ elem => @instDecidableAnd _ _ inferInstance elem.decidableIsLegal
  | .map key value => @instDecidableAnd _ _ key.decidableIsLegal value.decidableIsLegal
  | .empty => .isTrue trivial

/-! ### Lengths -/

theorem head?_toDigits_ne_zero {n : Nat} (hn : 0 < n) : (Nat.toDigits 10 n).head? ≠ some '0' := by
  induction n using Nat.strong_induction_on with
  | _ n ih =>
    by_cases hsmall : n < 10
    · rw [Nat.toDigits_of_lt_base hsmall]
      interval_cases n <;> decide
    · have hrest := ih (n / 10) (by omega) (by omega)
      rw [Nat.toDigits_of_base_le (by decide) (by omega), List.head?_append]
      cases hdigits : (Nat.toDigits 10 (n / 10)).head? with
      | none => exact absurd (List.head?_eq_none_iff.mp hdigits) Nat.toDigits_ne_nil
      | some d => rwa [hdigits] at hrest

theorem showInt_eq (h : 0 < length) :
    ∃ n : Nat, length.toInt = n ∧ 0 < n ∧ n < 2 ^ 63 ∧
      (showInt length).toList = Nat.toDigits 10 n := by
  have hpos : 0 < length.toInt := by simpa [Int64.lt_iff_toInt_lt] using h
  have hlt : length.toInt < 2 ^ 63 := length.toInt_lt
  obtain ⟨n, hn⟩ := Int.eq_ofNat_of_zero_le hpos.le
  refine ⟨n, hn, by omega, by omega, ?_⟩
  rw [showInt, hn, Int.toString_eq_repr, Int.repr_eq_if]
  simp

theorem isNumber_showInt (h : 0 < length) : IsNumber (showInt length).toList := by
  obtain ⟨n, -, hpos, -, htext⟩ := showInt_eq h
  have hfirst := head?_toDigits_ne_zero hpos
  rw [htext]
  cases hdigits : Nat.toDigits 10 n with
  | nil => exact absurd hdigits Nat.toDigits_ne_nil
  | cons d ds =>
    refine ⟨d, ds, rfl, ?_, ?_⟩
    · rintro rfl
      exact hfirst (by rw [hdigits]; rfl)
    · intro c hc
      exact Nat.isDigit_of_mem_toDigits (by decide) (by decide) (hdigits ▸ hc)

theorem number?_of_isDigit {ds : List Char} (hds : ∀ d ∈ ds, d.isDigit = true) :
    Quoted.number? 10 ds = some (Nat.ofDigitChars 10 ds 0) := by
  rw [Quoted.number?]
  generalize 0 = start
  induction ds generalizing start with
  | nil => rfl
  | cons d ds ih =>
    rw [forall_mem_cons] at hds
    have hd := (Hcl.isDigit_iff_toNat d).mp hds.1
    have hvalue : hexValue? d = some (d.toNat - 48) := if_pos hd
    have hsmall : d.toNat - 48 < 10 := by omega
    simp only [foldlM_cons, hvalue, Option.bind_eq_bind, Option.bind_some, hsmall, if_true]
    rw [Nat.ofDigitChars_cons, ← ih hds.2, Nat.mul_comm start 10]
    rfl

/-- A length is read back from its digits. -/
theorem integerValue?_showInt (h : 0 < length) : integerValue? (showInt length) = some length := by
  obtain ⟨n, hn, hpos, hlt, htext⟩ := showInt_eq h
  have hfirst := head?_toDigits_ne_zero hpos
  have hdigits : ∀ c ∈ Nat.toDigits 10 n, c.isDigit = true :=
    fun c hc => Nat.isDigit_of_mem_toDigits (by decide) (by decide) hc
  have hbase : literalDigits (Nat.toDigits 10 n) = (10, Nat.toDigits 10 n) := by
    rw [literalDigits.eq_def]
    split
    next c rest hchars => exact absurd (by rw [hchars]; rfl) hfirst
    next => rfl
  have hmarks : (Nat.toDigits 10 n).filter (· ≠ '_') = Nat.toDigits 10 n := by
    rw [filter_eq_self]
    intro c hc
    have hdigit := hdigits c hc
    simp only [decide_eq_true_eq]
    rintro rfl
    cases hdigit
  have hnumber : Quoted.number? 10 (Nat.toDigits 10 n) = some n := by
    rw [number?_of_isDigit hdigits, Nat.ofDigitChars_ten_toDigits]
  have hvalue : Int64.ofNat n = length := by
    rw [← Int64.ofInt_toInt length, hn, Int64.ofInt_eq_ofNat]
  simp only [integerValue?, htext, hbase, hmarks, hnumber]
  simp [hvalue]
  exact hlt

/-! ### Cutting -/

theorem endsWord_cons {c : Char} (h : isWordChar c = false) (cs : List Char) :
    EndsWord (c :: cs) := by
  rintro d ⟨rfl⟩
  exact h

section

variable {breaks : Bool} {tail : List Char} {ls : List Lexeme}

theorem cuts_name {text : String} (h : isName text = true) (htail : EndsWord tail)
    (hrest : Cuts true tail ls) :
    Cuts breaks (text.toList ++ tail) (⟨.identifier, text⟩ :: ls) := by
  rw [isName, Bool.and_eq_true, Bool.not_eq_true'] at h
  have hkind : wordKind text = .identifier := by rw [wordKind, h.2]; rfl
  rw [← hkind]
  exact cuts_word h.1 htail (by rw [hkind]; exact hrest)

theorem cuts_keyword (word : String) (hword : isWord word.toList = true)
    (hkind : wordKind word = .keyword) (hends : Token.endsStatement .keyword word = false)
    (htail : EndsWord tail) (hrest : Cuts false tail ls) :
    Cuts breaks (word.toList ++ tail) (⟨.keyword, word⟩ :: ls) := by
  rw [← hkind]
  exact cuts_word hword htail (by rw [hkind, hends]; exact hrest)

theorem cuts_open (h : Cuts false tail ls) : Cuts breaks ('[' :: tail) (⟨.operator, "["⟩ :: ls) :=
  cuts_sign (isSign_bracket (by decide) tail) h

theorem cuts_close (h : Cuts true tail ls) : Cuts breaks (']' :: tail) (⟨.operator, "]"⟩ :: ls) :=
  cuts_sign (isSign_bracket (by decide) tail) h

end

/-- The text of a form begins with a letter, a star or a bracket. -/
theorem TypeForm.head?_chars (g : TypeForm) (hg : g.IsLegal) (tail : List Char) :
    ∃ c, (g.chars ++ tail).head? = some c ∧ (isLetter c = true ∨ c = '*' ∨ c = '[') := by
  have hname {text : String} (h : isName text = true) (rest : List Char) :
      ∃ c, (text.toList ++ rest).head? = some c ∧ isLetter c = true := by
    obtain ⟨c, cs, htext, hc, -⟩ := isWord_iff.mp (Bool.and_eq_true_iff.mp h).1
    exact ⟨c, by rw [htext]; rfl, hc⟩
  cases g with
  | name text =>
    obtain ⟨c, hhead, hc⟩ := hname hg tail
    exact ⟨c, hhead, .inl hc⟩
  | qualified package text =>
    obtain ⟨c, hhead, hc⟩ := hname hg.1 ('.' :: text.toList ++ tail)
    exact ⟨c, by rw [chars, append_assoc]; exact hhead, .inl hc⟩
  | pointer elem => exact ⟨'*', rfl, by simp⟩
  | slice elem => exact ⟨'[', rfl, by simp⟩
  | array length elem => exact ⟨'[', rfl, by simp⟩
  | map key value => exact ⟨'m', rfl, by decide⟩
  | empty => exact ⟨'s', rfl, by decide⟩

theorem TypeForm.cuts {g : TypeForm} (hg : g.IsLegal) (breaks : Bool) {tail : List Char}
    {ls : List Lexeme} (htail : EndsWord tail) (hrest : Cuts true tail ls) :
    Cuts breaks (g.chars ++ tail) (g.lexemes ++ ls) := by
  have hcloses : isWordChar ']' = false := by decide
  induction g generalizing breaks tail ls with
  | name text => exact cuts_name hg htail hrest
  | qualified package text =>
    have hpoint : IsSign '.' (text.toList ++ tail) := by
      obtain ⟨c, cs, htext, hc, -⟩ := isWord_iff.mp (Bool.and_eq_true_iff.mp hg.2).1
      exact isSign_point (by simp [htext, hc])
    rw [chars, lexemes, append_assoc]
    exact cuts_name hg.1 (endsWord_cons (by decide) _)
      (cuts_sign hpoint (cuts_name hg.2 htail hrest))
  | pointer elem ih =>
    have hstar : (elem.chars ++ tail).head? ≠ some '=' := by
      obtain ⟨c, hhead, hc⟩ := elem.head?_chars hg tail
      rw [hhead]
      rintro ⟨rfl⟩
      revert hc
      decide
    exact cuts_sign (isSign_star hstar) (ih hg false htail hrest)
  | slice elem ih => exact cuts_open (cuts_close (ih hg true htail hrest))
  | array length elem ih =>
    rw [chars, cons_append, append_assoc]
    exact cuts_open (cuts_number (isNumber_showInt hg.1) (endsWord_cons hcloses _) (by simp)
      (cuts_close (ih hg.2 true htail hrest)))
  | map key value hkey hvalue =>
    have hbody := hkey hg.1 false (endsWord_cons hcloses _)
      (cuts_close (hvalue hg.2 true htail hrest))
    simp only [chars, lexemes, append_assoc, cons_append]
    exact cuts_keyword "map" (by decide) (by decide) (by decide) (endsWord_cons (by decide) _)
      (cuts_open hbody)
  | empty =>
    rw [chars, append_assoc]
    exact cuts_keyword "struct" (by decide) (by decide) (by decide) (endsWord_cons (by decide) _)
      (cuts_sign (isSign_bracket (by decide) _) (cuts_sign (isSign_bracket (by decide) _) hrest))

end Schemata.GoSyntax
