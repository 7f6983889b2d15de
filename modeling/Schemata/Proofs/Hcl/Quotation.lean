import Schemata.Hcl.StringText
import Schemata.Hcl.Writing
import Schemata.Proofs.Hcl.Lexemes
import Schemata.Proofs.Text.Quotation

/-!
Texts in quotation marks. Writing escapes each character on its own, with a look at the next one;
the lexer takes the escaped text as one token, and what that token stands for is the text again.
The one place where characters act together is a dollar or percent sign before a brace, which
would open an interpolation or a directive: the sign is doubled, and a sign that is not doubled
never stands before a brace.
-/

namespace Schemata.Hcl

open Text List

variable {c : Char}

/-! ### Hexadecimal digits -/

theorem length_hex (width n : Nat) : (hex width n).length = width := by
  induction width generalizing n with
  | zero => rfl
  | succ width ih => simp [hex, ih]

theorem hexDigits_append {ds : List Char} (hds : ∀ d ∈ ds, (hexValue? d).isSome = true)
    (rest : List Char) : hexDigits ds.length (ds ++ rest) = ds := by
  induction ds with
  | nil => rfl
  | cons d ds ih =>
    rw [forall_mem_cons] at hds
    rw [length_cons, cons_append, hexDigits, if_pos hds.1, ih hds.2]

theorem charOf?_hex {width : Nat} (h : c.toNat < 16 ^ width) :
    charOf? (hex width c.toNat) = some c := by
  obtain ⟨ds, hds, -, hvalue⟩ := mapM_hexValue?_hex width c.toNat
  rw [Nat.mod_eq_of_lt h] at hvalue
  have hvalid : c.toNat < 0xD800 ∨ 0xDFFF < c.toNat ∧ c.toNat < 0x110000 := c.valid
  rw [charOf?, hds, Option.bind_some]
  simp only [hvalue, if_pos hvalid, Char.ofNat_toNat]

/-! ### Escapes -/

/-- Behind a backslash, characters that stand for `c` whatever follows them. -/
structure Selects (selector : List Char) (c : Char) : Prop where
  first : ∃ s ds, selector = s :: ds ∧ s ≠ '\n' ∧ s ≠ '\r' ∧
    ∀ d ∈ ds, (hexValue? d).isSome = true
  means : ∀ rest, escapeAt (selector ++ rest) = (some [c], selector.length)

/-- Whether a character stands for itself before another one. -/
structure IsBare (c : Char) (next : Option Char) : Prop where
  text : c ∉ ['"', '\\', '\n', '\r']
  noSequence : c = '$' ∨ c = '%' → next ≠ some '{'

theorem selects_hex {mark : Char} {width : Nat}
    (hmark : mark = 'u' ∧ width = 4 ∨ mark = 'U' ∧ width = 8) (hc : c.toNat < 16 ^ width) :
    Selects (mark :: hex width c.toNat) c where
  first := by
    refine ⟨mark, _, rfl, ?_, ?_, fun d => isSome_hexValue?_of_mem_hex⟩ <;>
      rcases hmark with ⟨rfl, -⟩ | ⟨rfl, -⟩ <;> decide
  means rest := by
    have hall : ∀ d ∈ hex width c.toNat, (hexValue? d).isSome = true :=
      fun d hd => isSome_hexValue?_of_mem_hex hd
    have hdigits := hexDigits_append hall rest
    rw [length_hex] at hdigits
    rcases hmark with ⟨rfl, rfl⟩ | ⟨rfl, rfl⟩ <;>
      simp [escapeAt, hdigits, length_hex, charOf?_hex hc]

/-- The three forms a character takes. -/
theorem escapeChar_cases (c : Char) (next : Option Char) :
    (escapeChar c next = [c] ∧ IsBare c next) ∨
      (escapeChar c next = [c, c] ∧ (c = '$' ∨ c = '%') ∧ next = some '{') ∨
      ∃ selector, escapeChar c next = '\\' :: selector ∧ Selects selector c := by
  unfold escapeChar
  split
  case h_1 => exact .inr (.inr ⟨['n'], rfl, ⟨⟨'n', [], by simp⟩, fun _ => rfl⟩⟩)
  case h_2 => exact .inr (.inr ⟨['r'], rfl, ⟨⟨'r', [], by simp⟩, fun _ => rfl⟩⟩)
  case h_3 => exact .inr (.inr ⟨['t'], rfl, ⟨⟨'t', [], by simp⟩, fun _ => rfl⟩⟩)
  case h_4 => exact .inr (.inr ⟨['"'], rfl, ⟨⟨'"', [], by simp⟩, fun _ => rfl⟩⟩)
  case h_5 => exact .inr (.inr ⟨['\\'], rfl, ⟨⟨'\\', [], by simp⟩, fun _ => rfl⟩⟩)
  case h_6 hn hr _ hquote hslash =>
    split
    next hdouble => exact .inr (.inl ⟨rfl, hdouble⟩)
    next hsingle =>
      split
      next =>
        refine .inl ⟨rfl, ?_, fun hsign hnext => hsingle ⟨hsign, hnext⟩⟩
        simp only [mem_cons, not_or]
        exact ⟨hquote, hslash, hn, hr, not_mem_nil⟩
      next =>
        split
        next hsmall => exact .inr (.inr ⟨_, rfl, selects_hex (.inl ⟨rfl, rfl⟩) hsmall⟩)
        next =>
          have hlarge : c.toNat < 16 ^ 8 := c.val.toNat_lt
          exact .inr (.inr ⟨_, rfl, selects_hex (.inr ⟨rfl, rfl⟩) hlarge⟩)

/-- A text and what it is written as. -/
inductive Escaped : List Char → List Char → Prop where
  | nil : Escaped [] []
  | bare {c : Char} {cs es : List Char} :
      IsBare c cs.head? → Escaped cs es → Escaped (c :: cs) (c :: es)
  | doubled {sign : Char} {cs es : List Char} :
      sign = '$' ∨ sign = '%' → Escaped cs es →
        Escaped (sign :: '{' :: cs) (sign :: sign :: '{' :: es)
  | selected {c : Char} {selector cs es : List Char} :
      Selects selector c → Escaped cs es → Escaped (c :: cs) ('\\' :: (selector ++ es))

theorem escaped_escapeChars (cs : List Char) : Escaped cs (escapeChars cs) := by
  induction hlength : cs.length using Nat.strong_induction_on generalizing cs with
  | _ length ih =>
    subst hlength
    cases cs with
    | nil => exact .nil
    | cons c cs =>
      have hcs := ih cs.length (by simp) cs rfl
      rcases escapeChar_cases c cs.head? with ⟨hc, hbare⟩ | ⟨hc, hsign, hnext⟩ | ⟨_, hc, hsel⟩
      · rw [escapeChars, hc]
        exact .bare hbare hcs
      · -- the brace behind a doubled sign is taken together with it
        obtain ⟨rest, rfl⟩ := head?_eq_some_iff.mp hnext
        have hbrace : escapeChar '{' rest.head? = ['{'] := by
          have hprint : isPrintable '{' = true := by decide
          simp [escapeChar, hprint]
        rw [escapeChars, hc, escapeChars, hbrace]
        exact .doubled hsign (ih rest.length (by simp) rest rfl)
      · rw [escapeChars, hc]
        exact .selected hsel hcs

/-! ### Signs before braces -/

/-- What may stand behind an escaped text: nothing that forms a sequence with its end. -/
def EndsText (tail : List Char) : Prop :=
  ∀ c ∈ tail.head?, c ≠ '{' ∧ c ≠ '$' ∧ c ≠ '%'

theorem endsText_quote (rest : List Char) : EndsText ('"' :: rest) := by
  simp [EndsText]

namespace Escaped

variable {cs es tail : List Char}

theorem head_brace (h : Escaped cs es) (htail : EndsText tail)
    (hhead : (es ++ tail).head? = some '{') : cs.head? = some '{' := by
  cases h with
  | nil => exact absurd rfl (htail '{' hhead).1
  | bare => exact hhead
  | doubled hsign => exact hhead
  | selected => exact absurd hhead (by simp)

/-- No sign is left before a brace that would open a sequence. -/
theorem no_sequence (h : Escaped cs es) (htail : EndsText tail) {sign : Char}
    (hsign : sign = '$' ∨ sign = '%') (more : List Char) : es ++ tail ≠ sign :: '{' :: more := by
  intro heq
  cases h with
  | nil =>
    have hhead := htail sign (by rw [show tail = _ from heq]; rfl)
    exact hsign.elim hhead.2.1 hhead.2.2
  | bare hbare hrest =>
    rw [cons_append, cons.injEq] at heq
    exact hbare.noSequence (heq.1 ▸ hsign) (hrest.head_brace htail (by rw [heq.2]; rfl))
  | doubled hdouble =>
    simp only [cons_append, cons.injEq] at heq
    rcases hdouble with rfl | rfl <;> exact absurd heq.2.1 (by decide)
  | selected =>
    simp only [cons_append, cons.injEq] at heq
    rcases hsign with rfl | rfl <;> exact absurd heq.1 (by decide)

theorem sequenceAt_eq_none (h : Escaped cs es) (htail : EndsText tail) :
    sequenceAt (es ++ tail) = none := by
  have hdollar := h.no_sequence htail (.inl rfl)
  have hpercent := h.no_sequence htail (.inr rfl)
  unfold sequenceAt
  split <;> simp_all

end Escaped

/-! ### Lexing -/

theorem quotedLength_bare {rest : List Char} (hc : c ∉ ['"', '\\', '\n', '\r'])
    (hsign : c = '$' ∨ c = '%' →
      rest ≠ [] ∧ rest.head? ≠ some '{' ∧ ∀ more, rest ≠ c :: '{' :: more) :
    quotedLength (c :: rest) = quotedLength rest + 1 := by
  simp only [mem_cons, not_or] at hc
  rw [quotedLength.eq_def]
  split <;> simp_all

theorem quotedLength_hexDigits {ds : List Char} (hds : ∀ d ∈ ds, (hexValue? d).isSome = true)
    (rest : List Char) : quotedLength (ds ++ rest) = quotedLength rest + ds.length := by
  induction ds with
  | nil => rfl
  | cons d ds ih =>
      rw [forall_mem_cons] at hds
      have hne : ∀ c, (hexValue? c).isSome = false → d ≠ c := by
        rintro c hc rfl
        exact absurd (hds.1.symm.trans hc) (by simp)
      have hbare : d ∉ ['"', '\\', '\n', '\r'] := by
        simp only [mem_cons, not_or]
        exact ⟨hne _ rfl, hne _ rfl, hne _ rfl, hne _ rfl, not_mem_nil⟩
      rw [cons_append, quotedLength_bare hbare, ih hds.2, length_cons]
      · omega
      · rintro (rfl | rfl)
        · exact absurd rfl (hne '$' rfl)
        · exact absurd rfl (hne '%' rfl)

theorem Escaped.quotedLength_eq {cs es : List Char} (h : Escaped cs es) (rest : List Char) :
    quotedLength (es ++ '"' :: rest) = es.length := by
  induction h with
  | nil => rfl
  | @bare c cs es hbare hrest ih =>
    rw [cons_append, quotedLength_bare hbare.text, ih, length_cons]
    intro hsign
    exact ⟨by simp,
      fun hhead => hbare.noSequence hsign (hrest.head_brace (endsText_quote _) hhead),
      hrest.no_sequence (endsText_quote _) hsign⟩
  | @doubled sign cs es hsign hrest ih =>
    rcases hsign with rfl | rfl <;> simp [quotedLength, ih]
  | @selected c selector cs es hsel hrest ih =>
      obtain ⟨s, ds, rfl, hn, hr, hds⟩ := hsel.first
      have hfirst : quotedLength ('\\' :: s :: (ds ++ (es ++ '"' :: rest))) =
          quotedLength (ds ++ (es ++ '"' :: rest)) + 2 := by
        simp [quotedLength, hn, hr]
      simp only [cons_append, append_assoc, hfirst, quotedLength_hexDigits hds, ih,
        length_cons, length_append]
      omega

/-- The lexemes of an escaped text in quotation marks; an empty text has none between them. -/
def quotationLexemes (es : List Char) : List Lexeme :=
  ⟨.openQuote, ['"']⟩ :: ((if es = [] then [] else [⟨.quotedText, es⟩]) ++ [⟨.closeQuote, ['"']⟩])

theorem lexemes_closeQuote (outer : List Mode) (cs : List Char) :
    lexemes (.quoted :: outer) ('"' :: cs) = ⟨.closeQuote, ['"']⟩ :: lexemes outer cs :=
  lexemes_of_nextToken (n := 0) (fun h => by cases h) rfl

theorem Escaped.lexemes_quotation {cs es : List Char} (h : Escaped cs es) {depth : Nat}
    {outer : List Mode} (tail : List Char) :
    lexemes (.plain depth :: outer) ('"' :: (es ++ '"' :: tail)) =
      quotationLexemes es ++ lexemes (.plain depth :: outer) tail := by
  have hopen : lexemes (.plain depth :: outer) ('"' :: (es ++ '"' :: tail)) =
      ⟨.openQuote, ['"']⟩ :: lexemes (.quoted :: .plain depth :: outer) (es ++ '"' :: tail) :=
    lexemes_of_nextToken (n := 0) (fun _ => rfl) rfl
  rw [hopen, quotationLexemes]
  cases hes : es with
  | nil => simp [lexemes_closeQuote]
  | cons e rest =>
      subst hes
      have hquote : e ≠ '"' := by
        rintro rfl
        cases h with
        | bare hbare => exact hbare.text (by simp)
        | doubled hsign => exact absurd hsign (by decide)
      have hnext : nextToken (.quoted :: .plain depth :: outer) (e :: (rest ++ '"' :: tail)) =
          (.quotedText, rest.length + 1, .quoted :: .plain depth :: outer) := by
        have hsequence := h.sequenceAt_eq_none (endsText_quote tail)
        have hlength := h.quotedLength_eq tail
        rw [cons_append] at hsequence hlength
        simp [nextToken, quotedToken, hsequence, hlength, hquote]
      rw [cons_append, lexemes_of_nextToken (fun h => by cases h) hnext]
      simp [lexemes_closeQuote]

/-! ### Meaning -/

theorem unescapeFrom_bare {rest : List Char} (hc : c ≠ '\\')
    (hsign : c = '$' ∨ c = '%' → ∀ more, rest ≠ c :: '{' :: more) (place : Place)
    (run : List Char) :
    unescapeFrom true place run (c :: rest) = unescapeFrom true place (c :: run) rest := by
  rw [unescapeFrom.eq_def]
  split <;> simp_all

theorem Escaped.unescapeFrom_eq {cs es : List Char} (h : Escaped cs es) (place : Place)
    (run : List Char) : unescapeFrom true place run es = (run.reverse ++ cs, []) := by
  induction h generalizing place run with
  | nil => rw [unescapeFrom, append_nil]
  | @bare c cs es hbare hrest ih =>
    rw [unescapeFrom_bare (by rintro rfl; exact hbare.text (by simp)), ih]
    · simp
    · intro hsign more
      have hnil : EndsText [] := by simp [EndsText]
      simpa using hrest.no_sequence hnil hsign more
  | @doubled sign cs es hsign hrest ih =>
    rcases hsign with rfl | rfl <;> simp [unescapeFrom, ih]
  | @selected c selector cs es hsel hrest ih =>
    simp [unescapeFrom, hsel.means, ih]

end Schemata.Hcl
