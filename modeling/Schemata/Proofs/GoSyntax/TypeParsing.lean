import Schemata.Proofs.GoSyntax.TypeSpelling

/-!
Reading the types of Go source. `Reads` says that a reader takes the tokens up to a later place
and notes no fault on the way; it follows the readers, so that the lexemes of a form are read as
an expression of that form.
-/

namespace Schemata.GoSyntax

open Text Token
open List hiding modify

variable {text : String}

/-- Reading stands before these tokens, and no fault has been noted or is to come. -/
structure Cursor.At (c : Cursor) (ts : List Token) : Prop where
  tokens : c.current :: c.rest = ts
  faults : c.faults = []
  clean : ∀ t ∈ ts, t.faults = []

def Reads {α : Type} (p : Parse α) (ts rest : List Token) (Q : α → Prop) : Prop :=
  ∀ c : Cursor, c.At ts → (p.run c).2.At rest ∧ Q (p.run c).1

section

variable {α β : Type} {ts mid rest : List Token} {P : α → Prop} {Q : β → Prop}

theorem Reads.pure {a : α} (h : P a) : Reads (Pure.pure a) ts ts P := fun _ hc => ⟨hc, h⟩

theorem Reads.bind {p : Parse α} {f : α → Parse β} (hp : Reads p ts mid P)
    (hf : ∀ a, P a → Reads (f a) mid rest Q) : Reads (p >>= f) ts rest Q := by
  intro c hc
  obtain ⟨hmid, ha⟩ := hp c hc
  exact hf _ ha _ hmid

/-- A step with one possible result. -/
theorem Reads.step {p : Parse α} {f : α → Parse β} {a : α} (hp : Reads p ts mid (· = a))
    (hf : Reads (f a) mid rest Q) : Reads (p >>= f) ts rest Q :=
  hp.bind fun _ ha => ha ▸ hf

theorem Reads.mono {p : Parse α} {P' : α → Prop} (hp : Reads p ts rest P) (h : ∀ a, P a → P' a) :
    Reads p ts rest P' := fun c hc => ⟨(hp c hc).1, h _ (hp c hc).2⟩

variable {t u : Token}

theorem reads_peek : Reads peek (t :: ts) (t :: ts) (· = t) := by
  intro c hc
  exact ⟨hc, (cons.inj hc.tokens).1⟩

theorem reads_get : Reads get ts ts (fun c => c.current :: c.rest = ts) :=
  fun _ hc => ⟨hc, hc.tokens⟩

theorem reads_isAt (text : String) : Reads (isAt text) (t :: ts) (t :: ts) (· = t.is text) :=
  Reads.step reads_peek (.pure rfl)

theorem reads_here : Reads here (t :: ts) (t :: ts) (· = t.place) := by
  intro c hc
  exact ⟨hc, congrArg Token.place (cons.inj hc.tokens).1⟩

theorem reads_next (hts : ts ≠ [] := by simp) : Reads next (t :: ts) ts (· = ()) := by
  intro c hc
  obtain ⟨u, us, rfl⟩ := exists_cons_of_ne_nil hts
  obtain ⟨rfl, hrest⟩ := cons.inj hc.tokens
  have hu : u.faults = [] := hc.clean u (by simp)
  have hrun : next.run c = ((), { c with
      current := u
      rest := us
      lastStop := c.current.stop
      faults := if c.isFull then c.faults else u.faults.reverse ++ c.faults }) := by
    simp only [next, modify, modifyGet, MonadStateOf.modifyGet, StateT.modifyGet, StateT.run, hrest]
    rfl
  rw [hrun]
  refine ⟨⟨rfl, ?_, fun t ht => hc.clean t (mem_cons_of_mem _ ht)⟩, rfl⟩
  simp [hu, hc.faults]

theorem reads_expect (h : t.is text = true) (hts : ts ≠ [] := by simp) :
    Reads (expect text) (t :: ts) ts (· = t.place) := by
  rw [expect]
  refine reads_here.step ((reads_isAt text).step ?_)
  rw [h]
  exact (reads_next hts).step (.pure rfl)

theorem Reads.deeper {p : Parse α} (hp : Reads p ts rest P) : Reads (deeper p) ts rest P := by
  intro c hc
  obtain ⟨hrest, ha⟩ := hp { c with level := c.level + 1 } ⟨hc.tokens, hc.faults, hc.clean⟩
  exact ⟨⟨hrest.tokens, hrest.faults, hrest.clean⟩, ha⟩

theorem Reads.comparing {p : Parse α} (hp : Reads p ts rest P) (on : Bool) :
    Reads (comparing on p) ts rest P := by
  intro c hc
  obtain ⟨hrest, ha⟩ := hp { c with comparesAssign := on } ⟨hc.tokens, hc.faults, hc.clean⟩
  exact ⟨⟨hrest.tokens, hrest.faults, hrest.clean⟩, ha⟩

end

/-! ### Lexemes -/

section

variable {t : Token} {l : Lexeme}

theorem Token.is_of_lexeme (h : t.lexeme = l) (text : String) :
    t.is text = ((l.kind = .keyword || l.kind = .operator) && l.text == text) := by
  rw [← h]
  rfl

theorem Token.is_of_operator {sign : String} (h : t.lexeme = ⟨.operator, sign⟩) (text : String) :
    t.is text = (sign == text) := is_of_lexeme h text

theorem Token.is_of_keyword {word : String} (h : t.lexeme = ⟨.keyword, word⟩) (text : String) :
    t.is text = (word == text) := is_of_lexeme h text

theorem Token.kind_of_lexeme (h : t.lexeme = l) : t.kind = l.kind := congrArg Lexeme.kind h

theorem Token.text_of_lexeme (h : t.lexeme = l) : t.text = l.text := congrArg Lexeme.text h

end

/-- What may stand behind a type: it goes on with neither a selector nor arguments. -/
def EndsType (t : Token) : Prop := t.is "." = false ∧ t.is "[" = false

/-- An expression spells a form. -/
inductive Denotes : Expr → TypeForm → Prop where
  | name {id : Identifier} : Denotes (.identifier id) (.name id.name)
  | qualified {x id : Identifier} :
      Denotes (.selector (.identifier x) id) (.qualified x.name id.name)
  | pointer {place : Place} {x : Expr} {g : TypeForm} (h : Denotes x g) :
      Denotes (.star place x) (.pointer g)
  | slice {place : Place} {x : Expr} {g : TypeForm} (h : Denotes x g) :
      Denotes (.array place none x) (.slice g)
  | array {place : Place} {length x : Expr} {n : Int64} {g : TypeForm}
      (hlength : length.value? 0 = some n) (h : Denotes x g) :
      Denotes (.array place (some length) x) (.array n g)
  | map {place : Place} {x y : Expr} {key value : TypeForm} (hkey : Denotes x key)
      (hvalue : Denotes y value) : Denotes (.map place x y) (.map key value)
  | empty {place : Place} {isOneLine : Bool} : Denotes (.struct place isOneLine []) .empty

/-! ### Parts of types -/

section

variable {t u v w : Token} {rest : List Token}

theorem reads_identifier (ht : t.kind = .identifier) :
    Reads identifier (t :: u :: rest) (u :: rest) (· = ⟨t.place, t.text⟩) := by
  refine reads_peek.step ?_
  rw [if_pos ht]
  exact .step reads_next (.pure rfl)

theorem reads_name (ht : t.lexeme = ⟨.identifier, text⟩) (hu : u.is "." = false) :
    Reads (typeName none) (t :: u :: rest) (u :: rest) (Denotes · (.name text)) := by
  obtain rfl : t.text = text := text_of_lexeme ht
  refine (reads_identifier (kind_of_lexeme ht)).step ((reads_isAt ".").step ?_)
  rw [hu]
  exact .pure .name

theorem reads_qualified {package : String} (ht : t.lexeme = ⟨.identifier, package⟩)
    (hu : u.lexeme = ⟨.operator, "."⟩) (hv : v.lexeme = ⟨.identifier, text⟩) :
    Reads (typeName none) (t :: u :: v :: w :: rest) (w :: rest)
      (Denotes · (.qualified package text)) := by
  obtain rfl : t.text = package := text_of_lexeme ht
  obtain rfl : v.text = text := text_of_lexeme hv
  have hpoint : u.is "." = true := is_of_lexeme hu "."
  refine (reads_identifier (kind_of_lexeme ht)).step ((reads_isAt ".").step ?_)
  rw [hpoint]
  exact .step reads_next ((reads_identifier (kind_of_lexeme hv)).step (.pure .qualified))

/-- The length of an array, before its closing bracket. -/
theorem reads_length {length : Int64} (hlength : 0 < length)
    (ht : t.lexeme = ⟨.integer, showInt length⟩) (hu : u.lexeme = ⟨.operator, "]"⟩) (n : Nat) :
    Reads (rhs (n + 4)) (t :: u :: rest) (u :: rest) (·.value? 0 = some length) := by
  have hkind : t.kind = .integer := kind_of_lexeme ht
  have htext : t.text = showInt length := text_of_lexeme ht
  have hnot (text : String) : t.is text = false := is_of_lexeme ht text
  have hclose (text : String) : u.is text = ("]" == text) := is_of_operator hu text
  have hliteral : Reads (operand (n + 1)) (t :: u :: rest) (u :: rest)
      (· = .literal ⟨t.place, t.kind, t.text⟩) := by
    refine reads_peek.step ?_
    have his : t.isLiteral = true := by rw [Token.isLiteral, hkind]
    rw [if_neg (by rw [hkind]; decide), if_pos his]
    exact .step reads_next (.pure rfl)
  have hprimary (x : Expr) : Reads (primaryFrom (n + 1) x) (u :: rest) (u :: rest) (· = x) := by
    refine reads_peek.step ?_
    simp only [hclose, String.reduceBEq, Bool.false_eq_true, if_false, Bool.false_and]
    exact reads_get.bind fun _ _ => .pure rfl
  have hbinary (x : Expr) : Reads (binaryFrom (n + 2) x 1) (u :: rest) (u :: rest) (· = x) := by
    refine reads_get.bind fun c hc => ?_
    obtain ⟨rfl, -⟩ := cons.inj hc
    have hnone : precedence (if c.comparesAssign && c.current.is "=" then "==" else
        c.current.text) = 0 := by
      simp only [hclose, String.reduceBEq, Bool.and_false, Bool.false_eq_true, if_false,
        text_of_lexeme hu]
      rfl
    simp only [hnone, ite_self, Nat.zero_lt_one, if_true]
    exact .pure rfl
  have hunary : Reads (unaryExpr (n + 2)) (t :: u :: rest) (u :: rest)
      (· = .literal ⟨t.place, t.kind, t.text⟩) := by
    refine reads_peek.step ?_
    simp only [hnot, any_cons, any_nil, Bool.or_self, Bool.false_eq_true, if_false]
    exact hliteral.step (hprimary _)
  have hvalue : (Expr.literal ⟨t.place, t.kind, t.text⟩).value? 0 = some length := by
    refine (if_pos hkind).trans ?_
    rw [htext, integerValue?_showInt hlength]
  exact ((hunary.step (hbinary _)).comparing true).mono fun x hx => hx ▸ hvalue

theorem reads_emptyStruct (ht : t.lexeme = ⟨.keyword, "struct"⟩)
    (hu : u.lexeme = ⟨.operator, r"{"⟩) (hv : v.lexeme = ⟨.operator, r"}"⟩) (n : Nat) :
    Reads (structType (n + 1)) (t :: u :: v :: w :: rest) (w :: rest) (Denotes · .empty) := by
  have hnone {starts : Parse Bool} (p : Parse FieldGroup)
      (h : Reads starts (v :: w :: rest) (v :: w :: rest) (· = false)) :
      Reads (many starts p n) (v :: w :: rest) (v :: w :: rest) (· = []) := by
    cases n with
    | zero => exact .pure rfl
    | succ n => exact h.step (.pure rfl)
  refine (reads_expect (is_of_lexeme ht _)).step ?_
  refine (reads_expect (is_of_lexeme hu _)).step ?_
  refine (hnone _ (reads_peek.step (.pure ?_))).step ?_
  · rw [kind_of_lexeme hv, is_of_lexeme hv, is_of_lexeme hv]
    rfl
  exact (reads_expect (is_of_lexeme hv _)).step (.pure .empty)

end

/-! ### Types -/

/-- A type of the form starts here. -/
def Found (g : TypeForm) (x : Option Expr) : Prop := ∃ e, x = some e ∧ Denotes e g

theorem Reads.type {n : Nat} {ts rest : List Token} {g : TypeForm}
    (h : Reads (type? n) ts rest (Found g)) :
    Reads (GoSyntax.type (n + 1)) ts rest (Denotes · g) := by
  refine h.bind ?_
  rintro _ ⟨e, rfl, he⟩
  exact .pure he

section

variable {n : Nat} {t u v w : Token} {ts us rest : List Token} {g key value : TypeForm}

theorem reads_type?_name {t : Token} (ht : t.kind = .identifier) (hu : u.is "[" = false)
    (h : Reads (typeName none) (t :: ts) (u :: us) (Denotes · g)) :
    Reads (type? (n + 1)) (t :: ts) (u :: us) (Found g) := by
  refine reads_peek.step ?_
  rw [if_pos ht]
  refine h.bind fun e he => (reads_isAt "[").step ?_
  rw [hu]
  exact .pure ⟨e, rfl, he⟩

theorem reads_type?_pointer (ht : t.lexeme = ⟨.operator, "*"⟩) (hts : ts ≠ [])
    (h : Reads (type n) ts rest (Denotes · g)) :
    Reads (type? (n + 1)) (t :: ts) rest (Found (.pointer g)) := by
  refine reads_peek.step ?_
  simp only [kind_of_lexeme ht, is_of_operator ht, reduceCtorEq, if_false,
    String.reduceBEq, Bool.false_eq_true, if_true]
  exact .step (reads_next hts) (h.bind fun e he => .pure ⟨_, rfl, .pointer he⟩)

theorem reads_type?_bracket (ht : t.lexeme = ⟨.operator, "["⟩) (hts : ts ≠ [])
    (h : Reads (arrayRest n t.place none) ts rest (Denotes · g)) :
    Reads (type? (n + 1)) (t :: ts) rest (Found g) := by
  refine reads_peek.step ?_
  simp only [kind_of_lexeme ht, is_of_operator ht, reduceCtorEq, if_false,
    String.reduceBEq, if_true]
  exact .step (reads_next hts) (h.bind fun e he => .pure ⟨e, rfl, he⟩)

theorem reads_arrayRest_slice {place : Place} (ht : t.lexeme = ⟨.operator, "]"⟩) (hts : ts ≠ [])
    (h : Reads (type n) ts rest (Denotes · g)) :
    Reads (arrayRest (n + 1) place none) (t :: ts) rest (Denotes · (.slice g)) := by
  have his (text : String) : t.is text = ("]" == text) := is_of_operator ht text
  refine Reads.step (?_ : Reads _ _ (t :: ts) (· = none)) ?_
  · refine .deeper (reads_peek.step ?_)
    simp only [his, String.reduceBEq, Bool.false_eq_true, if_false, if_true]
    exact .pure rfl
  · refine (reads_isAt ",").step ?_
    simp only [his, String.reduceBEq, Bool.false_eq_true, if_false]
    refine .step (reads_expect (his _) hts) (h.bind fun e he => ?_)
    exact .pure (.slice he)

theorem reads_arrayRest_array {place : Place} {length : Int64} (hlength : 0 < length)
    (ht : t.lexeme = ⟨.integer, showInt length⟩) (hu : u.lexeme = ⟨.operator, "]"⟩) (hts : ts ≠ [])
    (h : Reads (type (n + 4)) ts rest (Denotes · g)) :
    Reads (arrayRest (n + 5) place none) (t :: u :: ts) rest (Denotes · (.array length g)) := by
  have hnot (text : String) : t.is text = false := is_of_lexeme ht text
  have his (text : String) : u.is text = ("]" == text) := is_of_operator hu text
  refine Reads.bind
    (?_ : Reads _ _ (u :: ts) fun x => ∃ e, x = some e ∧ e.value? 0 = some length) ?_
  · refine .deeper (reads_peek.step ?_)
    simp only [hnot, Bool.false_eq_true, if_false]
    exact (reads_length hlength ht hu n).bind fun e he => .pure ⟨e, rfl, he⟩
  · rintro _ ⟨e, rfl, he⟩
    refine (reads_isAt ",").step ?_
    simp only [his, String.reduceBEq, Bool.false_eq_true, if_false]
    refine .step (reads_expect (his _) hts) (h.bind fun x hx => ?_)
    exact .pure (.array he hx)

theorem reads_type?_map (ht : t.lexeme = ⟨.keyword, "map"⟩) (hu : u.lexeme = ⟨.operator, "["⟩)
    (hv : v.lexeme = ⟨.operator, "]"⟩) (hts : ts ≠ []) (hus : us ≠ [])
    (hkey : Reads (type n) ts (v :: us) (Denotes · key))
    (hvalue : Reads (type n) us rest (Denotes · value)) :
    Reads (type? (n + 1)) (t :: u :: ts) rest (Found (.map key value)) := by
  refine reads_peek.step ?_
  simp only [kind_of_lexeme ht, is_of_keyword ht, reduceCtorEq, if_false,
    String.reduceBEq, Bool.false_eq_true, if_true]
  refine .step reads_next (.step (reads_expect (is_of_operator hu _) hts) ?_)
  refine hkey.bind fun x hx => .step (reads_expect (is_of_operator hv _) hus) ?_
  exact hvalue.bind fun y hy => .pure ⟨_, rfl, .map hx hy⟩

theorem reads_type?_struct (ht : t.lexeme = ⟨.keyword, "struct"⟩)
    (h : Reads (structType n) (t :: ts) rest (Denotes · g)) :
    Reads (type? (n + 1)) (t :: ts) rest (Found g) := by
  refine reads_peek.step ?_
  simp only [kind_of_lexeme ht, is_of_keyword ht, reduceCtorEq, if_false,
    String.reduceBEq, Bool.false_eq_true, if_true]
  exact h.bind fun e he => .pure ⟨e, rfl, he⟩

end

/-- The lexemes of a form are read as that form, with fuel for each of them. -/
theorem reads_type? {g : TypeForm} (hg : g.IsLegal) {ts rest : List Token} {t : Token} {n : Nat}
    (hts : ts.map Token.lexeme = g.lexemes) (ht : EndsType t) (hn : 6 * ts.length ≤ n + 1) :
    Reads (type? n) (ts ++ t :: rest) (t :: rest) (Found g) := by
  induction g generalizing ts rest t n with
  | name text =>
    obtain ⟨u, _, rfl, hu, hnil⟩ := map_eq_cons_iff.mp hts
    obtain rfl := map_eq_nil_iff.mp hnil
    obtain ⟨n, rfl⟩ : ∃ m, n = m + 1 := ⟨n - 1, by simp at hn; omega⟩
    exact reads_type?_name (kind_of_lexeme hu) ht.2 (reads_name hu ht.1)
  | qualified package text =>
    obtain ⟨u, _, rfl, hu, hvs⟩ := map_eq_cons_iff.mp hts
    obtain ⟨v, _, rfl, hv, hws⟩ := map_eq_cons_iff.mp hvs
    obtain ⟨w, _, rfl, hw, hnil⟩ := map_eq_cons_iff.mp hws
    obtain rfl := map_eq_nil_iff.mp hnil
    obtain ⟨n, rfl⟩ : ∃ m, n = m + 1 := ⟨n - 1, by simp at hn; omega⟩
    exact reads_type?_name (kind_of_lexeme hu) ht.2 (reads_qualified hu hv hw)
  | pointer elem ih =>
    obtain ⟨u, us, rfl, hu, hus⟩ := map_eq_cons_iff.mp hts
    obtain ⟨n, rfl⟩ : ∃ m, n = m + 2 := ⟨n - 2, by simp at hn; omega⟩
    have hfuel : 6 * us.length ≤ n + 1 := by simp at hn; omega
    exact reads_type?_pointer hu (by simp) (ih hg hus ht hfuel).type
  | slice elem ih =>
    obtain ⟨u, _, rfl, hu, hvs⟩ := map_eq_cons_iff.mp hts
    obtain ⟨v, vs, rfl, hv, hvs⟩ := map_eq_cons_iff.mp hvs
    obtain ⟨n, rfl⟩ : ∃ m, n = m + 3 := ⟨n - 3, by simp at hn; omega⟩
    have hfuel : 6 * vs.length ≤ n + 1 := by simp at hn; omega
    refine reads_type?_bracket hu (by simp) (reads_arrayRest_slice hv (by simp) ?_)
    exact (ih hg hvs ht hfuel).type
  | array length elem ih =>
    obtain ⟨u, _, rfl, hu, hvs⟩ := map_eq_cons_iff.mp hts
    obtain ⟨v, _, rfl, hv, hws⟩ := map_eq_cons_iff.mp hvs
    obtain ⟨w, ws, rfl, hw, hws⟩ := map_eq_cons_iff.mp hws
    obtain ⟨n, rfl⟩ : ∃ m, n = m + 6 := ⟨n - 6, by simp at hn; omega⟩
    have hfuel : 6 * ws.length ≤ n + 3 + 1 := by simp at hn; omega
    refine reads_type?_bracket hu (by simp) (reads_arrayRest_array hg.1 hv hw (by simp) ?_)
    exact (ih hg.2 hws ht hfuel).type
  | map key value hkey hvalue =>
    obtain ⟨u, _, rfl, hu, hvs⟩ := map_eq_cons_iff.mp hts
    obtain ⟨v, _, rfl, hv, hkeys⟩ := map_eq_cons_iff.mp hvs
    obtain ⟨ks, _, rfl, hks, hws⟩ := map_eq_append_iff.mp hkeys
    obtain ⟨w, vs, rfl, hw, hvs⟩ := map_eq_cons_iff.mp hws
    obtain ⟨n, rfl⟩ : ∃ m, n = m + 2 := ⟨n - 2, by simp at hn; omega⟩
    have hlength : 6 * (ks.length + vs.length + 3) ≤ n + 3 := by simp at hn; omega
    have hends : EndsType w := ⟨is_of_operator hw _, is_of_operator hw _⟩
    have hread : Reads (type (n + 1)) (ks ++ w :: (vs ++ t :: rest)) (w :: (vs ++ t :: rest))
        (Denotes · key) := (hkey hg.1 hks hends (by omega)).type
    rw [cons_append, cons_append, append_assoc, cons_append]
    exact reads_type?_map hu hv hw (by simp) (by simp) hread
      (hvalue hg.2 hvs ht (by omega)).type
  | empty =>
    obtain ⟨u, _, rfl, hu, hvs⟩ := map_eq_cons_iff.mp hts
    obtain ⟨v, _, rfl, hv, hws⟩ := map_eq_cons_iff.mp hvs
    obtain ⟨w, _, rfl, hw, hnil⟩ := map_eq_cons_iff.mp hws
    obtain rfl := map_eq_nil_iff.mp hnil
    obtain ⟨n, rfl⟩ : ∃ m, n = m + 2 := ⟨n - 2, by simp at hn; omega⟩
    exact reads_type?_struct hu (reads_emptyStruct hu hv hw n)

/-! ### Texts -/

theorem not_isWordChar_byteOrderMark : isWordChar byteOrderMark = false := by
  -- the texts of the tables have to be opened before the tables can be searched
  simp only [isWordChar, isLetter, isDigit, Text.isLetter, Text.isDigit, letterRanges, digitRanges,
    numbers, flatMap_cons, flatMap_nil]
  repeat rw [String.toList_ofList]
  decide +kernel

theorem isMisplaced_of_isName (h : isName text = true) :
    ∀ c ∈ text.toList, isMisplaced c = false := by
  rw [isName, Bool.and_eq_true] at h
  obtain ⟨-, -, -, -, hall⟩ := isWord_iff.mp h.1
  intro c hc
  rw [isMisplaced, Bool.or_eq_false_iff, beq_eq_false_iff_ne, beq_eq_false_iff_ne]
  constructor
  · rintro rfl
    exact absurd (hall _ hc) (by decide)
  · rintro rfl
    exact absurd (hall _ hc) (by simp [not_isWordChar_byteOrderMark])

theorem isMisplaced_of_isDigit {c : Char} (h : c.isDigit = true) : isMisplaced c = false := by
  rw [isMisplaced, Bool.or_eq_false_iff, beq_eq_false_iff_ne, beq_eq_false_iff_ne]
  constructor <;>
  · rintro rfl
    cases h

theorem TypeForm.isMisplaced_chars {g : TypeForm} (hg : g.IsLegal) :
    ∀ c ∈ g.chars, isMisplaced c = false := by
  have hopen : isMisplaced '[' = false := by decide
  have hclose : isMisplaced ']' = false := by decide
  induction g with
  | name text => exact isMisplaced_of_isName hg
  | qualified package text =>
    rw [chars, forall_mem_append, forall_mem_cons]
    exact ⟨isMisplaced_of_isName hg.1, by decide, isMisplaced_of_isName hg.2⟩
  | pointer elem ih =>
    rw [chars, forall_mem_cons]
    exact ⟨by decide, ih hg⟩
  | slice elem ih =>
    rw [chars, forall_mem_cons, forall_mem_cons]
    exact ⟨hopen, hclose, ih hg⟩
  | array length elem ih =>
    obtain ⟨-, -, -, -, hall⟩ := isNumber_showInt hg.1
    rw [chars, forall_mem_cons, forall_mem_append, forall_mem_cons]
    exact ⟨hopen, fun c hc => isMisplaced_of_isDigit (hall c hc), hclose, ih hg.2⟩
  | map key value hkey hvalue =>
    rw [chars, forall_mem_append, forall_mem_cons, forall_mem_append, forall_mem_cons]
    exact ⟨by simp [isMisplaced, byteOrderMark], hopen, hkey hg.1, hclose, hvalue hg.2⟩
  | empty => simp [chars, isMisplaced, byteOrderMark]

theorem reads_typeAndEnd {g : TypeForm} (hg : g.IsLegal) {ts : List Token} {t u : Token} {n : Nat}
    (hts : ts.map Token.lexeme = g.lexemes) (ht : t.lexeme = ⟨.semicolon, "\n"⟩)
    (hn : 6 * ts.length < n) : Reads (typeAndEnd n) (ts ++ [t, u]) [u] (Denotes · g) := by
  have hnot (text : String) : t.is text = false := is_of_lexeme ht text
  obtain ⟨m, rfl⟩ : ∃ m, n = m + 1 := ⟨n - 1, by omega⟩
  have htype : Reads (type (m + 1)) (ts ++ [t, u]) [t, u] (Denotes · g) :=
    (reads_type? hg hts ⟨hnot _, hnot _⟩ (by omega)).type
  refine htype.bind fun e he => .step (?_ : Reads expectEnd _ _ (· = ())) (.pure he)
  rw [expectEnd]
  refine reads_peek.step ?_
  rw [hnot, hnot, hnot, if_neg (by decide), if_neg (by decide), if_pos (kind_of_lexeme ht)]
  exact reads_next

/-- The text of a form is read as an expression of that form. -/
theorem parseType?_text {g : TypeForm} (hg : g.IsLegal) :
    ∃ e, parseType? g.text = some e ∧ Denotes e g := by
  have hcuts : Cuts false g.text.toList
      (g.lexemes ++ [⟨.semicolon, "\n"⟩, ⟨.endOfFile, ""⟩]) := by
    have h := TypeForm.cuts hg false (fun _ h => by cases h) cuts_end
    rwa [append_nil, ← String.toList_ofList (l := g.chars)] at h
  obtain ⟨hlexemes, hclean⟩ :=
    lex_of_cuts hcuts (by simpa [TypeForm.text] using TypeForm.isMisplaced_chars hg)
  rw [parseType?]
  generalize lex g.text.toUTF8.toList = all at hlexemes hclean
  obtain ⟨ts, _, rfl, hts, hends⟩ := map_eq_append_iff.mp hlexemes
  obtain ⟨u, _, rfl, hu, hstop⟩ := map_eq_cons_iff.mp hends
  obtain ⟨v, _, rfl, hv, hnil⟩ := map_eq_cons_iff.mp hstop
  obtain rfl := map_eq_nil_iff.mp hnil
  obtain ⟨t, us, hall⟩ := exists_cons_of_ne_nil (l := ts ++ [u, v]) (by simp)
  have hlength : ts.length + 2 = us.length + 1 := by simpa using congrArg length hall
  have hread : Reads (typeAndEnd (16 * (us.length + 4))) (t :: us) [v] (Denotes · g) :=
    hall ▸ reads_typeAndEnd hg hts hu (by omega)
  rw [hall] at hclean ⊢
  obtain ⟨hat, he⟩ := hread { current := t, rest := us, faults := t.faults.reverse }
    ⟨rfl, by simp [hclean t mem_cons_self], hclean⟩
  simp only []
  generalize (typeAndEnd _).run _ = result at hat he ⊢
  refine ⟨result.1, if_pos ?_, he⟩
  rw [hat.faults, (cons.inj hat.tokens).1, kind_of_lexeme hv]
  rfl

end Schemata.GoSyntax
