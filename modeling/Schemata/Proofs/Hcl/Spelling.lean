import Schemata.Hcl.Parser
import Schemata.Proofs.Hcl.Quotation

/-!
Lexemes that spell an expression. Reading looks one token ahead and takes fuel for each call, so
a list of lexemes spells an expression if reading takes exactly them, whatever ends the
expression behind them and with any fuel from sixteen units a lexeme on. Names, quotations and
numbers spell expressions, and so do calls and objects over what does.
-/

namespace Schemata.Hcl

open Text List

variable {c c' : Cursor} {ts rest : List Token} {fuel : Nat} {e : Expression} {ls : List Lexeme}
  {P : Expression → Prop} {lss : List (List Lexeme)}

/-! ### Running -/

section Run

variable {α β : Type}

theorem run_bind (p : Parse α) (f : α → Parse β) (c : Cursor) :
    (p >>= f).run c = (f (p.run c).1).run (p.run c).2 := rfl

theorem run_pure (a : α) (c : Cursor) : (pure a : Parse α).run c = (a, c) := rfl

theorem run_peek (c : Cursor) : peek.run c = (c.next.1, c) := rfl

theorem run_read (c : Cursor) : read.run c = (c.next.1, { c with rest := c.next.2 }) := rfl

theorem run_discard (p : Parse α) (c : Cursor) : (discard p).run c = ((), (p.run c).2) := rfl

theorem run_no_faults (c : Cursor) : (([] : List Place).forM fault).run c = ((), c) := rfl

/-- What adds no fault is not lost. -/
theorem run_attemptLost {p : Parse α} {a : α} (h : p.run c = (a, c'))
    (hfaults : c'.faults = c.faults) : (attemptLost p).run c = ((a, false), c') := by
  have hrun : (attemptLost p).run c =
      (((p.run c).1, decide ((p.run c).2.faults.length > c.faults.length) &&
        (p.run c).2.recovering), (p.run c).2) := rfl
  rw [hrun, h]
  simp [hfaults]

theorem run_withBreaks {p : Parse α} {a : α} {count : Bool}
    (h : p.run { c with rest := ts, breaks := count :: c.breaks } =
      (a, { c with rest, breaks := count :: c.breaks })) :
    (withBreaks count p).run { c with rest := ts } = (a, { c with rest }) := by
  have hrun : (withBreaks count p).run { c with rest := ts } =
      ((p.run { c with rest := ts, breaks := count :: c.breaks }).1,
        { (p.run { c with rest := ts, breaks := count :: c.breaks }).2 with
          breaks := (p.run { c with rest := ts, breaks := count :: c.breaks }).2.breaks.drop 1 }) :=
    rfl
  rw [hrun, h]
  rfl

end Run

/-- Whether a token counts whether or not line breaks do. -/
def TokenKind.isVisible (k : TokenKind) : Bool := k != .comment && k != .newline

theorem next_of_isVisible {t : Token} (ht : t.kind.isVisible = true) :
    Cursor.next { c with rest := t :: ts } = (t, ts) := by
  simp only [TokenKind.isVisible, Bool.and_eq_true, bne_iff_ne, ne_eq] at ht
  simp [Cursor.next, visible, ht.1, ht.2]

/-- The tokens that end an expression without being part of it. -/
def TokenKind.endsExpression : TokenKind → Bool
  | .comma | .closeParen | .closeBrace | .equal | .newline | .endOfFile => true
  | _ => false

def Cursor.EndsExpression (c : Cursor) : Prop := c.next.1.kind.endsExpression = true

/-- The tokens that begin the expressions spelled here. -/
def TokenKind.startsExpression : TokenKind → Bool
  | .identifier | .number | .openQuote | .openBrace => true
  | _ => false

theorem TokenKind.isVisible_of_startsExpression {k : TokenKind} (hk : k.startsExpression = true) :
    k.isVisible = true := by
  cases k <;> first | rfl | cases hk

theorem endsExpression_cons {t : Token} (hvisible : t.kind.isVisible = true)
    (hends : t.kind.endsExpression = true) : Cursor.EndsExpression { c with rest := t :: ts } := by
  rw [Cursor.EndsExpression, next_of_isVisible hvisible]
  exact hends

/-! ### Operands -/

theorem lookup_of_endsExpression {k : TokenKind} (hk : k.endsExpression = true) :
    ∀ level ∈ precedence, level.lookup k = none := by
  revert hk
  cases k <;> decide

theorem run_binary (h : (operand fuel).run c = (e, c')) (hfaults : c'.faults = c.faults)
    (levels : List (List (TokenKind × Operator)))
    (hlevels : ∀ level ∈ levels, level.lookup c'.next.1.kind = none) :
    (binary (fuel + levels.length + 1) levels).run c = (e, c') := by
  induction levels with
  | nil =>
    rw [length_nil, binary]
    exact h
  | cons level tighter ih =>
    rw [forall_mem_cons] at hlevels
    rw [length_cons, ← Nat.add_assoc, binary, run_bind, run_attemptLost (ih hlevels.2) hfaults]
    change (binaryTail (fuel + tighter.length + 1) level tighter e).run c' = (e, c')
    rw [binaryTail, run_bind, run_peek, hlevels.1, run_pure]

/-- An operand with nothing to join it to is an expression. -/
theorem run_expression (h : (operand fuel).run c = (e, c')) (hfaults : c'.faults = c.faults)
    (hend : c'.EndsExpression) : (expression (fuel + 8)).run c = (e, c') := by
  have hbinary : (binary (fuel + 7) precedence).run c = (e, c') :=
    run_binary h hfaults precedence (lookup_of_endsExpression hend)
  have hquestion : c'.next.1.kind ≠ .question := by
    intro hk
    rw [Cursor.EndsExpression, hk] at hend
    cases hend
  rw [expression, run_bind, run_peek, run_bind, run_attemptLost hbinary hfaults]
  simp only [Bool.false_eq_true, if_false, run_bind, run_peek, ne_eq, hquestion, not_false_eq_true,
    if_true, run_pure]

/-- No step follows an expression that ends. -/
theorem run_stepsFrom_end (hend : c.EndsExpression) (fuel : Nat) (e : Expression) :
    (stepsFrom fuel e).run c = (e, c) := by
  cases fuel with
  | zero => rw [stepsFrom, run_pure]
  | succ fuel =>
    rw [stepsFrom, run_bind, run_peek]
    split
    next hk =>
      rw [Cursor.EndsExpression, hk] at hend
      cases hend
    next hk =>
      rw [Cursor.EndsExpression, hk] at hend
      cases hend
    next => rw [run_pure]

/-! ### Spelling -/

/-- Lexemes that are read as one expression with a property. -/
structure Spells (ls : List Lexeme) (P : Expression → Prop) : Prop where
  starts : ∃ l ∈ ls.head?, l.kind.startsExpression = true
  reads : ∀ (fuel : Nat) (c : Cursor) (ts rest : List Token), 16 * ls.length ≤ fuel →
    ts.map Token.lexeme = ls → Cursor.EndsExpression { c with rest } →
    ∃ e, (expression fuel).run { c with rest := ts ++ rest } = (e, { c with rest }) ∧ P e

theorem Spells.mono {Q : Expression → Prop} (h : Spells ls P) (hPQ : ∀ e, P e → Q e) :
    Spells ls Q where
  starts := h.starts
  reads fuel c ts rest hfuel hts hend :=
    (h.reads fuel c ts rest hfuel hts hend).imp fun e he => ⟨he.1, hPQ e he.2⟩

/-- What is seen where an expression begins. -/
theorem Spells.next_eq (h : Spells ls P) (hts : ts.map Token.lexeme = ls) (c : Cursor)
    (rest : List Token) : ∃ t ∈ ts.head?, (Cursor.next { c with rest := ts ++ rest }).1 = t ∧
      t.kind.startsExpression = true := by
  obtain ⟨l, hl, hstarts⟩ := h.starts
  rw [← hts, head?_map] at hl
  obtain ⟨t, ht, rfl⟩ := Option.map_eq_some_iff.mp hl
  obtain ⟨ts, rfl⟩ := head?_eq_some_iff.mp ht
  refine ⟨t, ht, ?_, hstarts⟩
  rw [cons_append, next_of_isVisible (TokenKind.isVisible_of_startsExpression hstarts)]

/-- It is enough to look at operands. -/
theorem spells_of_operand
    (h : ∀ (fuel : Nat) (c : Cursor) (ts rest : List Token), 16 * ls.length ≤ fuel + 8 →
      ts.map Token.lexeme = ls → Cursor.EndsExpression { c with rest } →
      ∃ e, (operand fuel).run { c with rest := ts ++ rest } = (e, { c with rest }) ∧ P e)
    (hstarts : ∃ l ∈ ls.head?, l.kind.startsExpression = true) : Spells ls P := by
  refine ⟨hstarts, fun fuel c ts rest hfuel hts hend => ?_⟩
  obtain ⟨l, hl, -⟩ := hstarts
  have hpos : 0 < ls.length := length_pos_of_mem (mem_of_mem_head? hl)
  obtain ⟨fuel, rfl⟩ : ∃ n, fuel = n + 8 := ⟨fuel - 8, by omega⟩
  obtain ⟨e, hrun, hP⟩ := h fuel c ts rest hfuel hts hend
  exact ⟨e, run_expression hrun rfl hend, hP⟩

/-! ### Names -/

def wordExpression (place : Place) (w : String) : Expression :=
  match w with
  | "true" => .literal place (.flag true)
  | "false" => .literal place (.flag false)
  | "null" => .literal place .null
  | root => .name place root []

/-- The lexemes of further parts of a dotted name. -/
def stepLexemes (ws : List (List Char)) : List Lexeme :=
  ws.flatMap fun w => [⟨.dot, ['.']⟩, ⟨.identifier, w⟩]

theorem run_stepsFrom (hend : Cursor.EndsExpression { c with rest }) (ws : List (List Char))
    (fuel : Nat) (e : Expression) (ts : List Token) (hfuel : ws.length ≤ fuel)
    (hts : ts.map Token.lexeme = stepLexemes ws) :
    ∃ steps : List Step, steps.mapM Step.name? = some (ws.map String.ofList) ∧
      (stepsFrom fuel e).run { c with rest := ts ++ rest } =
        (steps.foldl addStep e, { c with rest }) := by
  induction ws generalizing fuel e ts with
  | nil =>
    obtain rfl : ts = [] := by simpa [stepLexemes] using hts
    exact ⟨[], rfl, run_stepsFrom_end hend fuel e⟩
  | cons w ws ih =>
    obtain ⟨dot, ts, rfl, hdot, hts⟩ := map_eq_cons_iff.mp hts
    obtain ⟨word, ts, rfl, hword, hts⟩ := map_eq_cons_iff.mp hts
    obtain ⟨fuel, rfl⟩ : ∃ n, fuel = n + 1 := ⟨fuel - 1, by simp at hfuel; omega⟩
    have hdotKind : dot.kind = .dot := congrArg Lexeme.kind hdot
    have hwordKind : word.kind = .identifier := congrArg Lexeme.kind hword
    have hwordText : word.text = w := congrArg Lexeme.text hword
    obtain ⟨steps, hsteps, hrun⟩ := ih fuel
      (addStep e (.attribute dot.place (String.ofList word.text))) ts (by simpa using hfuel) hts
    refine ⟨.attribute dot.place (String.ofList word.text) :: steps, ?_, ?_⟩
    · simp [hsteps, Step.name?, hwordText]
    · have hvisible : dot.kind.isVisible = true := by rw [hdotKind]; rfl
      have hvisible' : word.kind.isVisible = true := by rw [hwordKind]; rfl
      rw [stepsFrom]
      simp only [cons_append, run_bind, run_peek, run_read, run_discard,
        next_of_isVisible hvisible, next_of_isVisible hvisible', hdotKind, hwordKind]
      exact hrun

theorem run_term_word {word : Token} (hword : word.kind = .identifier)
    (hparen : (Cursor.next { c with rest }).1.kind ≠ .openParen)
    (hcolon : (Cursor.next { c with rest }).1.kind ≠ .doubleColon) (fuel : Nat) :
    (term (fuel + 1)).run { c with rest := word :: rest } =
      (wordExpression word.place (String.ofList word.text), { c with rest }) := by
  have hvisible : word.kind.isVisible = true := by rw [hword]; rfl
  rw [term]
  simp only [run_bind, run_peek, run_read, run_discard, next_of_isVisible hvisible, hword, hparen,
    hcolon, or_self, if_false]
  generalize String.ofList word.text = w
  split
  · rfl
  · rfl
  · rfl
  next htrue hfalse hnull => rw [wordExpression, run_pure] <;> assumption

theorem run_operand (hterm : (term fuel).run c = (e, c')) (hend : c'.EndsExpression) :
    (operand (fuel + 1)).run c = (e, c') := by
  rw [operand, run_bind, hterm, run_stepsFrom_end hend]

/-- A dotted name. -/
theorem spells_name (w : List Char) (ws : List (List Char)) :
    Spells (⟨.identifier, w⟩ :: stepLexemes ws) fun e =>
      ∃ (place : Place) (steps : List Step), steps.mapM Step.name? = some (ws.map String.ofList) ∧
        e = steps.foldl addStep (wordExpression place (String.ofList w)) := by
  apply spells_of_operand _ ⟨_, rfl, rfl⟩
  intro fuel c ts rest hfuel hts hend
  obtain ⟨word, ts, rfl, hword, hts⟩ := map_eq_cons_iff.mp hts
  have hlength : (stepLexemes ws).length = 2 * ws.length := by
    simp [stepLexemes, Nat.mul_comm]
  obtain ⟨fuel, rfl⟩ : ∃ n, fuel = n + 2 := ⟨fuel - 2, by simp at hfuel; omega⟩
  have hwordKind : word.kind = .identifier := congrArg Lexeme.kind hword
  have hwordText : word.text = w := congrArg Lexeme.text hword
  obtain ⟨steps, hsteps, hrun⟩ := run_stepsFrom hend ws (fuel + 1)
    (wordExpression word.place (String.ofList word.text)) ts
    (by rw [length_cons, hlength] at hfuel; omega) hts
  refine ⟨_, ?_, word.place, steps, hsteps, by rw [← hwordText]⟩
  -- behind the word stands a point, or what ends the name
  have hnext : (Cursor.next { c with rest := ts ++ rest }).1.kind = .dot ∨
      Cursor.EndsExpression { c with rest := ts ++ rest } := by
    cases ws with
    | nil =>
      obtain rfl : ts = [] := by simpa [stepLexemes] using hts
      exact .inr hend
    | cons w' ws =>
      obtain ⟨dot, ts, rfl, hdot, -⟩ := map_eq_cons_iff.mp hts
      have hdotKind : dot.kind = .dot := congrArg Lexeme.kind hdot
      left
      rw [cons_append, next_of_isVisible (by rw [hdotKind]; rfl), hdotKind]
  have hkind : ∀ k : TokenKind, k ≠ .dot → k.endsExpression = false →
      (Cursor.next { c with rest := ts ++ rest }).1.kind ≠ k := by
    rintro k hdot hends rfl
    rcases hnext with h | h
    · exact hdot h
    · exact absurd (hends.symm.trans h) (by simp)
  rw [operand, run_bind, cons_append,
    run_term_word hwordKind (hkind _ (by decide) rfl) (hkind _ (by decide) rfl), hrun]

theorem spells_word (w : List Char) :
    Spells [⟨.identifier, w⟩] fun e => ∃ place, e = wordExpression place (String.ofList w) := by
  refine (spells_name w []).mono ?_
  rintro e ⟨place, steps, hsteps, rfl⟩
  cases steps with
  | nil => exact ⟨place, rfl⟩
  | cons step steps => simp [Option.bind_eq_some_iff] at hsteps

/-! ### Numbers and quotations -/

theorem spells_number {ds : List Char} {n : Number} (hn : Number.parse? ds = some n) :
    Spells [⟨.number, ds⟩] fun e => ∃ place, e = .literal place (.number n) := by
  apply spells_of_operand _ ⟨_, rfl, rfl⟩
  intro fuel c ts rest hfuel hts hend
  obtain ⟨t, ts, rfl, ht, hts⟩ := map_eq_cons_iff.mp hts
  obtain rfl : ts = [] := map_eq_nil_iff.mp hts
  obtain ⟨fuel, rfl⟩ : ∃ n, fuel = n + 2 := ⟨fuel - 2, by simp at hfuel; omega⟩
  have hkind : t.kind = .number := congrArg Lexeme.kind ht
  have htext : t.text = ds := congrArg Lexeme.text ht
  refine ⟨.literal t.place (.number n), run_operand ?_ hend, t.place, rfl⟩
  have hvisible : t.kind.isVisible = true := by rw [hkind]; rfl
  rw [term]
  simp only [cons_append, nil_append, run_bind, run_peek, run_read, run_discard,
    next_of_isVisible hvisible, hkind, numberOf, htext, hn, run_pure]

/-- The one part of a template without sequences. -/
theorem run_templateParts {cs es : List Char} (h : Escaped cs es) (hts : ts.map Token.lexeme =
      (if es = [] then [] else [⟨.quotedText, es⟩]) ++ [⟨.closeQuote, ['"']⟩]) (c : Cursor)
    (rest : List Token) (fuel : Nat) (start : Place) :
    ∃ parts last place, (templateParts (fuel + 2) start .closeQuote false false []).run
        { c with rest := ts ++ rest } = ((parts, last), { c with rest }) ∧
      (if parts.isEmpty then [Part.text start []] else parts) = [.text place cs] := by
  by_cases hes : es = []
  · rw [if_pos hes] at hts
    obtain ⟨closing, ts, rfl, hclosing, hts⟩ := map_eq_cons_iff.mp hts
    obtain rfl : ts = [] := map_eq_nil_iff.mp hts
    have hkind : closing.kind = .closeQuote := congrArg Lexeme.kind hclosing
    have hvisible : closing.kind.isVisible = true := by rw [hkind]; rfl
    subst hes
    cases h
    refine ⟨[], closing.place, start, ?_, rfl⟩
    rw [templateParts]
    simp only [cons_append, nil_append, run_bind, run_read, next_of_isVisible hvisible,
      hkind, if_true, run_pure, reverse_nil]
  · rw [if_neg hes] at hts
    obtain ⟨t, ts, rfl, ht, hts⟩ := map_eq_cons_iff.mp hts
    obtain ⟨closing, ts, rfl, hclosing, hts⟩ := map_eq_cons_iff.mp hts
    obtain rfl : ts = [] := map_eq_nil_iff.mp hts
    have hkind : t.kind = .quotedText := congrArg Lexeme.kind ht
    have htext : t.text = es := congrArg Lexeme.text ht
    have hclosingKind : closing.kind = .closeQuote := congrArg Lexeme.kind hclosing
    have hvisible : t.kind.isVisible = true := by rw [hkind]; rfl
    have hvisible' : closing.kind.isVisible = true := by rw [hclosingKind]; rfl
    have hmeaning : t.unescaped = (String.ofList cs, []) := by
      rw [Token.unescaped, htext, hkind]
      simp [h.unescapeFrom_eq]
    refine ⟨[.text t.place cs], closing.place, t.place, ?_, rfl⟩
    rw [templateParts]
    simp only [cons_append, nil_append, run_bind, run_read, next_of_isVisible hvisible,
      hkind, reduceCtorEq, if_false, hmeaning, run_no_faults]
    rw [templateParts]
    simp only [run_bind, run_read, next_of_isVisible hvisible', hclosingKind, if_true, run_pure,
      reverse_singleton, String.toList_ofList, Bool.false_eq_true, if_false]

theorem spells_quotation {cs es : List Char} (h : Escaped cs es) :
    Spells (quotationLexemes es) fun e =>
      ∃ place place', e = .template place [.literal place' (.text (String.ofList cs))] := by
  apply spells_of_operand _ ⟨_, rfl, rfl⟩
  intro fuel c ts rest hfuel hts hend
  obtain ⟨opening, ts, rfl, hopening, hts⟩ := map_eq_cons_iff.mp hts
  obtain ⟨fuel, rfl⟩ : ∃ n, fuel = n + 5 := ⟨fuel - 5, by simp [quotationLexemes] at hfuel; omega⟩
  have hkind : opening.kind = .openQuote := congrArg Lexeme.kind hopening
  have hvisible : opening.kind.isVisible = true := by rw [hkind]; rfl
  obtain ⟨parts, last, place, hrun, hparts⟩ := run_templateParts h hts c rest fuel
    (Cursor.next { c with rest := ts ++ rest }).1.place
  refine ⟨_, run_operand ?_ hend, opening.place, place, rfl⟩
  rw [term]
  simp only [cons_append, run_bind, run_peek, run_read, run_discard,
    next_of_isVisible hvisible, hkind]
  rw [template]
  simp only [run_bind, run_peek, hrun, hparts]
  rfl

/-! ### Separated pieces -/

/-- Lists of lexemes with commas between them. -/
def joinedLexemes (lss : List (List Lexeme)) : List Lexeme :=
  intercalate [⟨.comma, [',']⟩] lss

section Separated

variable {β : Type} {loop : Nat → Parse (List β)} {close : TokenKind}

/-- A loop reads lexemes as one piece and looks at the token behind it: it ends with a closing
token and goes on behind a comma. -/
def ReadsPiece (loop : Nat → Parse (List β)) (close : TokenKind) (ls : List Lexeme)
    (P : β → Prop) : Prop :=
  ∀ (fuel : Nat) (c : Cursor) (ts : List Token) (t : Token) (rest : List Token),
    16 * ls.length ≤ fuel → ts.map Token.lexeme = ls → t.kind = close ∨ t.kind = .comma →
    ∃ b, P b ∧
      (t.kind = close →
        (loop (fuel + 1)).run { c with rest := ts ++ t :: rest } = ([b], { c with rest })) ∧
      (t.kind = .comma → ∀ bs c', (loop fuel).run { c with rest } = (bs, c') →
        (loop (fuel + 1)).run { c with rest := ts ++ t :: rest } = (b :: bs, c'))

theorem run_separated
    (hclose : ∀ (fuel : Nat) (c : Cursor) (t : Token) (rest : List Token), t.kind = close →
      (loop (fuel + 1)).run { c with rest := t :: rest } = ([], { c with rest }))
    {Ps : List (β → Prop)} (h : Forall₂ (ReadsPiece loop close) lss Ps) {last : Lexeme}
    (hlast : last.kind = close) (fuel : Nat) (c : Cursor) (ts rest : List Token)
    (hfuel : 16 * (joinedLexemes lss).length + 16 ≤ fuel)
    (hts : ts.map Token.lexeme = joinedLexemes lss ++ [last]) :
    ∃ bs, (loop fuel).run { c with rest := ts ++ rest } = (bs, { c with rest }) ∧
      Forall₂ (fun P b => P b) Ps bs := by
  subst hlast
  obtain ⟨fuel, rfl⟩ : ∃ n, fuel = n + 1 := ⟨fuel - 1, by omega⟩
  induction h generalizing fuel ts with
  | nil =>
    obtain ⟨t, ts, rfl, rfl, hnone⟩ := map_eq_cons_iff.mp hts
    obtain rfl : ts = [] := map_eq_nil_iff.mp hnone
    exact ⟨[], hclose fuel c t rest rfl, .nil⟩
  | @cons ls P lss Ps hls hlss ih =>
    cases hlss with
    | nil =>
      rw [joinedLexemes, intercalate_singleton] at hts hfuel
      obtain ⟨ts, more, rfl, hfirst, hmore⟩ := map_eq_append_iff.mp hts
      obtain ⟨t, more, rfl, rfl, hnone⟩ := map_eq_cons_iff.mp hmore
      obtain rfl : more = [] := map_eq_nil_iff.mp hnone
      obtain ⟨b, hP, hend, -⟩ := hls fuel c ts t rest (by omega) hfirst (.inl rfl)
      refine ⟨[b], ?_, .cons hP .nil⟩
      rw [append_assoc]
      exact hend rfl
    | @cons ls' P' lss Ps hls' hlss =>
      have hjoined : joinedLexemes (ls :: ls' :: lss) =
          ls ++ ⟨.comma, [',']⟩ :: joinedLexemes (ls' :: lss) := by
        simp [joinedLexemes, intercalate_cons_cons]
      rw [hjoined, append_assoc] at hts
      simp only [hjoined, length_append, length_cons] at hfuel
      obtain ⟨ts, more, rfl, hfirst, hmore⟩ := map_eq_append_iff.mp hts
      obtain ⟨t, more, rfl, ht, hmore⟩ := map_eq_cons_iff.mp hmore
      have hkind : t.kind = .comma := congrArg Lexeme.kind ht
      obtain ⟨fuel, rfl⟩ : ∃ n, fuel = n + 1 := ⟨fuel - 1, by omega⟩
      obtain ⟨bs, hrest, hbs⟩ := ih more hmore fuel (by omega)
      obtain ⟨b, hP, -, hnext⟩ := hls (fuel + 1) c ts t (more ++ rest) (by omega) hfirst
        (.inr hkind)
      refine ⟨b :: bs, ?_, .cons hP hbs⟩
      rw [append_assoc]
      exact hnext hkind bs _ hrest

end Separated

/-! ### Calls -/

theorem run_arguments_close (function : Place) (fuel : Nat) (c : Cursor) (t : Token)
    (rest : List Token) (hkind : t.kind = .closeParen) :
    (arguments (fuel + 1) function).run { c with rest := t :: rest } = ([], { c with rest }) := by
  have hvisible : t.kind.isVisible = true := by rw [hkind]; rfl
  rw [arguments]
  simp only [run_bind, run_peek, run_read, run_discard, next_of_isVisible hvisible, hkind,
    if_true, run_pure]

theorem Spells.readsArgument (h : Spells ls P) (function : Place) :
    ReadsPiece (arguments · function) .closeParen ls P := by
  intro fuel c ts t rest hfuel hts ht
  have hvisible : t.kind.isVisible = true := by rcases ht with ht | ht <;> rw [ht] <;> rfl
  have hends : t.kind.endsExpression = true := by rcases ht with ht | ht <;> rw [ht] <;> rfl
  obtain ⟨t', -, hnext, hstarts⟩ := h.next_eq hts c (t :: rest)
  have hopen : t'.kind ≠ .closeParen := by
    intro hk
    rw [hk] at hstarts
    cases hstarts
  obtain ⟨e, hrun, hP⟩ := h.reads fuel c ts (t :: rest) hfuel hts
    (endsExpression_cons hvisible hends)
  refine ⟨e, hP, fun hkind => ?_, fun hkind es c' hrest => ?_⟩
  · simp only [arguments, run_bind, run_peek, hnext, hopen, if_false, run_attemptLost hrun rfl,
      Bool.false_eq_true, run_read, next_of_isVisible hvisible, hkind, run_pure]
  · simp only [arguments, run_bind, run_peek, hnext, hopen, if_false, run_attemptLost hrun rfl,
      Bool.false_eq_true, run_read, next_of_isVisible hvisible, hkind, run_pure, hrest]

theorem spells_call (f : List Char) {Ps : List (Expression → Prop)} (h : Forall₂ Spells lss Ps) :
    Spells (⟨.identifier, f⟩ :: ⟨.openParen, ['(']⟩ ::
      (joinedLexemes lss ++ [⟨.closeParen, [')']⟩])) fun e =>
        ∃ place es, Forall₂ (fun P e => P e) Ps es ∧ e = .call place (String.ofList f) es := by
  apply spells_of_operand _ ⟨_, rfl, rfl⟩
  intro fuel c ts rest hfuel hts hend
  obtain ⟨word, ts, rfl, hword, hts⟩ := map_eq_cons_iff.mp hts
  obtain ⟨opening, ts, rfl, hopening, hts⟩ := map_eq_cons_iff.mp hts
  simp only [length_cons, length_append] at hfuel
  obtain ⟨fuel, rfl⟩ : ∃ n, fuel = n + 3 := ⟨fuel - 3, by omega⟩
  have hwordKind : word.kind = .identifier := congrArg Lexeme.kind hword
  have hwordText : word.text = f := congrArg Lexeme.text hword
  have hkind : opening.kind = .openParen := congrArg Lexeme.kind hopening
  have hvisible : word.kind.isVisible = true := by rw [hwordKind]; rfl
  have hvisible' : opening.kind.isVisible = true := by rw [hkind]; rfl
  obtain ⟨es, hrun, hes⟩ := run_separated (run_arguments_close word.place)
    (h.imp fun _ _ hls => hls.readsArgument word.place) rfl fuel
    { c with breaks := false :: c.breaks } ts rest (by omega) hts
  refine ⟨.call word.place (String.ofList f) es, run_operand ?_ hend, word.place, es, hes, rfl⟩
  rw [term]
  simp only [cons_append, run_bind, run_peek, run_read, run_discard,
    next_of_isVisible hvisible, next_of_isVisible hvisible', hwordKind, hkind, true_or, if_true]
  rw [call]
  simp only [run_bind, run_read, next_of_isVisible hvisible', hkind, reduceCtorEq, if_false]
  rw [← hwordText]
  apply run_withBreaks
  rw [run_bind, hrun, run_pure]

/-! ### Objects -/

/-- Lexemes that are read as a key and its value. -/
def SpellsItem (ls : List Lexeme) (R : Expression × Expression → Prop) : Prop :=
  ∃ key value P Q, Spells key P ∧ Spells value Q ∧ ls = key ++ ⟨.equal, ['=']⟩ :: value ∧
    ∀ k v, P k → Q v → R (k, v)

theorem run_items_close (start : Place) (fuel : Nat) (c : Cursor) (t : Token)
    (rest : List Token) (hkind : t.kind = .closeBrace) :
    (items (fuel + 1) start).run { c with rest := t :: rest } = ([], { c with rest }) := by
  have hvisible : t.kind.isVisible = true := by rw [hkind]; rfl
  rw [items]
  simp only [run_bind, run_peek, run_read, run_discard, next_of_isVisible hvisible, hkind, run_pure]

theorem SpellsItem.readsItem {R : Expression × Expression → Prop} (h : SpellsItem ls R)
    (start : Place) : ReadsPiece (items · start) .closeBrace ls R := by
  obtain ⟨key, value, P, Q, hkey, hvalue, rfl, hR⟩ := h
  intro fuel c ts t rest hfuel hts ht
  have hvisible : t.kind.isVisible = true := by rcases ht with ht | ht <;> rw [ht] <;> rfl
  have hends : t.kind.endsExpression = true := by rcases ht with ht | ht <;> rw [ht] <;> rfl
  obtain ⟨ks, vs, rfl, hks, hvs⟩ := map_eq_append_iff.mp hts
  obtain ⟨equal, vs, rfl, hequal, hvs⟩ := map_eq_cons_iff.mp hvs
  simp only [length_append, length_cons] at hfuel
  have hequalKind : equal.kind = .equal := congrArg Lexeme.kind hequal
  have hequalVisible : equal.kind.isVisible = true := by rw [hequalKind]; rfl
  obtain ⟨t', -, hnext, hstarts⟩ := hkey.next_eq hks c (equal :: (vs ++ t :: rest))
  obtain ⟨k, hk, hP⟩ := hkey.reads fuel c ks (equal :: (vs ++ t :: rest)) (by omega) hks
    (endsExpression_cons hequalVisible (by rw [hequalKind]; rfl))
  obtain ⟨v, hv, hQ⟩ := hvalue.reads fuel c vs (t :: rest) (by omega) hvs
    (endsExpression_cons hvisible hends)
  -- both ways on read the same item first
  have hitem : (items (fuel + 1) start).run { c with rest := ks ++ equal :: (vs ++ t :: rest) } =
      (match t.kind with
        | .closeBrace => (pure [(k, v)] : Parse _)
        | _ => do return (k, v) :: (← items fuel start)).run { c with rest } := by
    rw [items]
    simp only [run_bind, run_peek, hnext]
    split
    next hkind =>
      rw [hkind] at hstarts
      cases hstarts
    next hkind =>
      rw [hkind] at hstarts
      cases hstarts
    next =>
      simp only [run_bind, run_attemptLost hk rfl, Bool.false_eq_true, if_false, run_peek,
        next_of_isVisible hequalVisible, hequalKind, ne_eq, not_true_eq_false, false_and,
        run_discard, run_read, run_attemptLost hv rfl, next_of_isVisible hvisible]
      rcases ht with ht | ht <;>
        simp only [ht, run_bind, run_discard, run_read, next_of_isVisible hvisible]
  rw [append_assoc, cons_append, hitem]
  refine ⟨(k, v), hR k v hP hQ, fun hkind => ?_, fun hkind es c' hrest => ?_⟩
  · simp only [hkind, run_pure]
  · simp only [hkind, run_bind, hrest, run_pure]

/-- The first lexeme behind an opening brace. -/
theorem SpellsItem.first_lexeme {Rs : List (Expression × Expression → Prop)}
    (h : Forall₂ SpellsItem lss Rs) :
    ∃ l, (joinedLexemes lss ++ ([⟨.closeBrace, ['}']⟩] : List Lexeme)).head? = some l ∧
      l.kind.isVisible = true ∧
      (l.kind = .closeBrace ∨ l ∈ (joinedLexemes lss).head?) := by
  cases h with
  | nil => exact ⟨_, rfl, rfl, .inl rfl⟩
  | @cons ls R lss Rs hls hlss =>
    obtain ⟨key, value, P, Q, hkey, -, rfl, -⟩ := hls
    obtain ⟨l, hl, hstarts⟩ := hkey.starts
    obtain ⟨key, rfl⟩ := head?_eq_some_iff.mp hl
    have hhead : (joinedLexemes ((l :: key ++ ⟨.equal, ['=']⟩ :: value) :: lss)).head? =
        some l := by
      cases lss <;> simp [joinedLexemes, intercalate_cons_cons]
    refine ⟨l, ?_, TokenKind.isVisible_of_startsExpression hstarts, .inr hhead⟩
    rw [head?_append, hhead, Option.some_or]

/-- An object, unless its first word makes it a comprehension. -/
theorem spells_object {Rs : List (Expression × Expression → Prop)} (h : Forall₂ SpellsItem lss Rs)
    (hfor : ∀ l ∈ (joinedLexemes lss).head?, l ≠ ⟨.identifier, ['f', 'o', 'r']⟩) :
    Spells (⟨.openBrace, ['{']⟩ :: (joinedLexemes lss ++ [⟨.closeBrace, ['}']⟩])) fun e =>
      ∃ place items, Forall₂ (fun R item => R item) Rs items ∧ e = .object place items := by
  apply spells_of_operand _ ⟨_, rfl, rfl⟩
  intro fuel c ts rest hfuel hts hend
  obtain ⟨opening, ts, rfl, hopening, hts⟩ := map_eq_cons_iff.mp hts
  simp only [length_cons, length_append] at hfuel
  obtain ⟨fuel, rfl⟩ : ∃ n, fuel = n + 2 := ⟨fuel - 2, by omega⟩
  have hkind : opening.kind = .openBrace := congrArg Lexeme.kind hopening
  have hvisible : opening.kind.isVisible = true := by rw [hkind]; rfl
  obtain ⟨is, hrun, his⟩ := run_separated (run_items_close opening.place)
    (h.imp fun _ _ hls => hls.readsItem opening.place) rfl fuel
    { c with breaks := true :: c.breaks } ts rest (by omega) hts
  refine ⟨.object opening.place is, run_operand ?_ hend, opening.place, is, his, rfl⟩
  have hloop : (Cursor.next { c with rest := ts ++ rest, breaks := false :: c.breaks }).1.isWord
      "for" = false := by
    obtain ⟨l, hhead, hvisible, hl⟩ := SpellsItem.first_lexeme h
    rw [← hts, head?_map] at hhead
    obtain ⟨t, ht, rfl⟩ := Option.map_eq_some_iff.mp hhead
    obtain ⟨ts, rfl⟩ := head?_eq_some_iff.mp ht
    rw [cons_append, next_of_isVisible (c := { c with breaks := false :: c.breaks }) hvisible,
      Token.isWord, Bool.and_eq_false_imp]
    intro hidentifier
    rcases hl with hl | hl
    · exact absurd (hl.symm.trans (beq_iff_eq.mp hidentifier)) (by decide)
    · rw [beq_eq_false_iff_ne]
      intro htext
      exact hfor _ hl (by rw [Token.lexeme, beq_iff_eq.mp hidentifier, htext]; rfl)
  have hword : (withBreaks false do return (← peek).isWord "for").run
      { c with rest := ts ++ rest } = (false, { c with rest := ts ++ rest }) := by
    apply run_withBreaks
    rw [run_bind, run_peek, run_pure, hloop]
  rw [term]
  simp only [cons_append, run_bind, run_peek, run_discard, run_read,
    next_of_isVisible hvisible, hkind, hword, Bool.false_eq_true, if_false]
  apply run_withBreaks
  rw [run_bind, hrun, run_pure]

end Schemata.Hcl
