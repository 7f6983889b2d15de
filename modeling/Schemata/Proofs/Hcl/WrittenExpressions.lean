import Schemata.Proofs.Hcl.Spelling

/-!
Texts that are read as expressions. A text is cut into the same lexemes wherever something behind
it ends its last word, so texts of names, quotations, numbers, calls and objects are cut and read
piece by piece.
-/

namespace Schemata.Hcl

open Text List

variable {ls : List Lexeme} {w : List Char} {texts : List (List Char)}

/-! ### Cutting -/

/-- A text is cut into lexemes, whatever stands around it. -/
structure Lexes (text : List Char) (ls : List Lexeme) : Prop where
  cuts : ∀ (depth : Nat) (outer : List Mode) (tail : List Char), EndsNumber tail →
    lexemes (.plain depth :: outer) (text ++ tail) = ls ++ lexemes (.plain depth :: outer) tail
  valid : ∀ l ∈ ls, l.kind ≠ .invalid

theorem endsNumber_cons {c : Char} (hpart : isWordPart c = false) (hpoint : c ≠ '.')
    (cs : List Char) : EndsNumber (c :: cs) := by
  refine ⟨fun d hd => ?_, by simpa using hpoint⟩
  obtain rfl : c = d := by simpa using hd
  exact hpart

theorem EndsNumber.append {cs : List Char} (h : EndsNumber cs) (hne : cs ≠ [])
    (tail : List Char) : EndsNumber (cs ++ tail) := by
  cases cs with
  | nil => exact absurd rfl hne
  | cons c cs => exact h

theorem lexes_nil : Lexes [] [] := ⟨fun _ _ _ _ => rfl, by simp⟩

theorem Lexes.append {a b : List Char} {ms : List Lexeme} (ha : Lexes a ls) (hb : Lexes b ms)
    (hne : b ≠ []) (hends : EndsNumber b) : Lexes (a ++ b) (ls ++ ms) where
  cuts depth outer tail htail := by
    rw [append_assoc, ha.cuts depth outer _ (hends.append hne tail),
      hb.cuts depth outer tail htail, append_assoc]
  valid l hl := (mem_append.mp hl).elim (ha.valid l) (hb.valid l)

theorem lexes_word (hw : isIdentifier w = true) : Lexes w [⟨.identifier, w⟩] where
  cuts _ _ _ htail := lexemes_word hw htail.1
  valid := by simp

theorem lexes_number {ds : List Char} (hne : ds ≠ []) (hds : ∀ d ∈ ds, d.isDigit = true) :
    Lexes ds [⟨.number, ds⟩] where
  cuts _ _ _ htail := lexemes_number hne hds htail
  valid := by simp

theorem Escaped.lexes_quotation {cs es : List Char} (h : Escaped cs es) :
    Lexes ('"' :: (es ++ ['"'])) (quotationLexemes es) where
  cuts depth outer tail _ := by
    simpa using h.lexemes_quotation tail
  valid l hl := by
    simp only [quotationLexemes, mem_cons, mem_append] at hl
    split at hl <;> aesop

theorem Lexes.after_comma {text : List Char} (h : Lexes text ls) :
    Lexes (',' :: ' ' :: text) (⟨.comma, [',']⟩ :: ls) where
  cuts depth outer tail htail := by
    rw [cons_append, cons_append, lexemes_comma, lexemes_blank,
      h.cuts depth outer tail htail, cons_append]
  valid := forall_mem_cons.mpr ⟨by decide, h.valid⟩

theorem Lexes.after_equal {text : List Char} (h : Lexes text ls) :
    Lexes (' ' :: '=' :: ' ' :: text) (⟨.equal, ['=']⟩ :: ls) where
  cuts depth outer tail htail := by
    rw [cons_append, cons_append, cons_append, lexemes_blank, lexemes_equal,
      lexemes_blank, h.cuts depth outer tail htail, cons_append]
  valid := forall_mem_cons.mpr ⟨by decide, h.valid⟩

theorem Lexes.in_parentheses {text : List Char} (h : Lexes text ls) :
    Lexes ('(' :: (text ++ [')'])) (⟨.openParen, ['(']⟩ :: (ls ++ [⟨.closeParen, [')']⟩])) where
  cuts depth outer tail _ := by
    rw [cons_append, append_assoc, singleton_append, lexemes_openParen,
      h.cuts depth outer _ (endsNumber_cons rfl (by decide) _), lexemes_closeParen,
      cons_append, append_assoc, singleton_append]
  valid := forall_mem_cons.mpr
    ⟨by decide, forall_mem_append.mpr ⟨h.valid, by simp⟩⟩

theorem Lexes.in_braces {text : List Char} (h : Lexes text ls) :
    Lexes ('{' :: ' ' :: (text ++ [' ', '}']))
      (⟨.openBrace, ['{']⟩ :: (ls ++ [⟨.closeBrace, ['}']⟩])) where
  cuts depth outer tail _ := by
    rw [cons_append, cons_append, append_assoc, cons_append, singleton_append, lexemes_openBrace,
      lexemes_blank, h.cuts (depth + 1) outer _ (endsNumber_cons rfl (by decide) _), lexemes_blank,
      lexemes_closeBrace, cons_append, append_assoc, singleton_append]
  valid := forall_mem_cons.mpr
    ⟨by decide, forall_mem_append.mpr ⟨h.valid, by simp⟩⟩

theorem lexes_no_braces : Lexes ['{', '}'] [⟨.openBrace, ['{']⟩, ⟨.closeBrace, ['}']⟩] where
  cuts depth outer tail _ := by
    rw [cons_append, singleton_append, lexemes_openBrace, lexemes_closeBrace,
      cons_append, singleton_append]
  valid := by simp

/-- Texts with commas between them. -/
theorem lexes_joined {lss : List (List Lexeme)} (h : Forall₂ Lexes texts lss) :
    Lexes (intercalate [',', ' '] texts) (joinedLexemes lss) := by
  induction h with
  | nil => exact lexes_nil
  | @cons text ls texts lss htext htexts ih =>
    cases htexts with
    | nil =>
      rw [joinedLexemes, intercalate_singleton, intercalate_singleton]
      exact htext
    | cons =>
      rw [joinedLexemes, intercalate_cons_cons, intercalate_cons_cons, append_assoc, append_assoc]
      exact htext.append ih.after_comma (cons_ne_nil _ _)
        (endsNumber_cons rfl (by decide) _)

/-- A dotted name. -/
theorem lexes_name {ws : List (List Char)} (hws : ∀ v ∈ w :: ws, isIdentifier v = true) :
    Lexes (intercalate ['.'] (w :: ws)) (⟨.identifier, w⟩ :: stepLexemes ws) := by
  induction ws generalizing w with
  | nil =>
    rw [intercalate_singleton]
    exact lexes_word (hws w (mem_singleton_self w))
  | cons v ws ih =>
    obtain ⟨hw, hws⟩ := forall_mem_cons.mp hws
    have hmore := ih hws
    -- the next part begins with a letter, so the point is a sign of its own
    obtain ⟨c, cs, hc, hcs⟩ : ∃ c cs, isWordStart c = true ∧
        intercalate ['.'] (v :: ws) = c :: cs := by
      have hv := (forall_mem_cons.mp hws).1
      cases v with
      | nil => cases hv
      | cons c v =>
        exact ⟨c, _, (Bool.and_eq_true_iff.mp hv).1, intercalate_cons_cons_left⟩
    refine ⟨fun depth outer tail htail => ?_, ?_⟩
    · have hpoint : EndsWord ('.' :: c :: (cs ++ tail)) := by
        rintro d ⟨⟩
        rfl
      have htext : intercalate ['.'] (w :: v :: ws) = w ++ '.' :: c :: cs := by
        rw [intercalate_cons_cons, hcs, append_assoc, singleton_append]
      have hcut := hmore.cuts depth outer tail htail
      rw [hcs, cons_append] at hcut
      rw [htext, append_assoc, cons_append, cons_append, lexemes_word hw hpoint,
        lexemes_dot hc, hcut]
      rfl
    · exact forall_mem_cons.mpr ⟨by simp, forall_mem_cons.mpr ⟨by decide, hmore.valid⟩⟩

/-! ### Reading -/

/-- A text that is read as an expression with a property, wherever something ends it. -/
def ReadsAs (text : List Char) (P : Expression → Prop) : Prop :=
  ∃ ls, Lexes text ls ∧ Spells ls P

theorem ReadsAs.mono {text : List Char} {P Q : Expression → Prop} (h : ReadsAs text P)
    (hPQ : ∀ e, P e → Q e) : ReadsAs text Q :=
  h.imp fun _ hls => ⟨hls.1, hls.2.mono hPQ⟩

theorem readsAs_name {ws : List (List Char)} (hws : ∀ v ∈ w :: ws, isIdentifier v = true) :
    ReadsAs (intercalate ['.'] (w :: ws)) fun e =>
      ∃ (place : Place) (steps : List Step), steps.mapM Step.name? = some (ws.map String.ofList) ∧
        e = steps.foldl addStep (wordExpression place (String.ofList w)) :=
  ⟨_, lexes_name hws, spells_name w ws⟩

theorem readsAs_quotation (cs : List Char) :
    ReadsAs ('"' :: (escapeChars cs ++ ['"'])) fun e =>
      ∃ place place', e = .template place [.literal place' (.text (String.ofList cs))] :=
  ⟨_, (escaped_escapeChars cs).lexes_quotation, spells_quotation (escaped_escapeChars cs)⟩

theorem readsAs_number {ds : List Char} {n : Number} (hne : ds ≠ [])
    (hds : ∀ d ∈ ds, d.isDigit = true) (hn : Number.parse? ds = some n) :
    ReadsAs ds fun e => ∃ place, e = .literal place (.number n) :=
  ⟨_, lexes_number hne hds, spells_number hn⟩

theorem forall₂_lexes_spells {Ps : List (Expression → Prop)} (h : Forall₂ ReadsAs texts Ps) :
    ∃ lss, Forall₂ Lexes texts lss ∧ Forall₂ Spells lss Ps := by
  induction h with
  | nil => exact ⟨[], .nil, .nil⟩
  | cons htext _ ih =>
    obtain ⟨ls, hcut, hread⟩ := htext
    obtain ⟨lss, hcuts, hreads⟩ := ih
    exact ⟨ls :: lss, .cons hcut hcuts, .cons hread hreads⟩

theorem readsAs_call {f : List Char} (hf : isIdentifier f = true) {Ps : List (Expression → Prop)}
    (h : Forall₂ ReadsAs texts Ps) :
    ReadsAs (f ++ '(' :: (intercalate [',', ' '] texts ++ [')'])) fun e =>
      ∃ place es, Forall₂ (fun P e => P e) Ps es ∧ e = .call place (String.ofList f) es := by
  obtain ⟨lss, hcuts, hreads⟩ := forall₂_lexes_spells h
  exact ⟨_, (lexes_word hf).append (lexes_joined hcuts).in_parentheses (cons_ne_nil _ _)
    (endsNumber_cons rfl (by decide) _), spells_call f hreads⟩

/-! ### Keys and objects -/

theorem keyword?_wordExpression (place : Place) (w : String) :
    (wordExpression place w).keyword? = some w := by
  unfold wordExpression
  split <;> rfl

theorem textOf_template {s : String} (hs : composed s = s) (place place' : Place) :
    textOf (.template place [.literal place' (.text s)]) = .ok s := by
  have hvalue : (Expression.template place [.literal place' (.text s)]).value = .ok (.text s) := by
    simp [Expression.value, Expression.eval, evalParts, Value.at, Value.convert, Value.ofLiteral,
      Value.ofText, hs, bind, Except.bind, pure, Except.pure]
  rw [textOf, hvalue]
  rfl

def keyLexemes (name : String) : List Lexeme :=
  if isIdentifier name.toList then [⟨.identifier, name.toList⟩]
  else quotationLexemes (escapeChars (composed name).toList)

theorem toList_quoted (s : String) :
    (quoted s).toList = '"' :: (escapeChars (composed s).toList ++ ['"']) := by
  simp [quoted]

theorem lexes_key (name : String) : Lexes (keyText name).toList (keyLexemes name) := by
  rw [keyText, keyLexemes]
  split
  next hname => exact lexes_word hname
  next =>
    rw [toList_quoted]
    exact (escaped_escapeChars _).lexes_quotation

theorem spells_key {name : String} (hname : composed name = name) :
    Spells (keyLexemes name) fun e => keyOf e = .ok name := by
  rw [keyLexemes]
  split
  next =>
    refine (spells_word name.toList).mono ?_
    rintro e ⟨place, rfl⟩
    rw [keyOf, keyword?_wordExpression, String.ofList_toList]
  next =>
    refine (spells_quotation (escaped_escapeChars _)).mono ?_
    rintro e ⟨place, place', rfl⟩
    rw [String.ofList_toList, hname]
    exact textOf_template hname place place'

theorem head_keyLexemes {name : String} (hname : name ≠ "for") :
    ∀ l ∈ (keyLexemes name).head?, l ≠ ⟨.identifier, ['f', 'o', 'r']⟩ := by
  rw [keyLexemes]
  split
  next =>
    rintro l ⟨⟩ hl
    exact hname (String.toList_injective (congrArg Lexeme.text hl))
  next =>
    rintro l ⟨⟩ hl
    cases congrArg Lexeme.kind hl

theorem readsAs_emptyObject : ReadsAs ['{', '}'] fun e => ∃ place, e = .object place [] := by
  refine ⟨_, lexes_no_braces, (spells_object .nil (by simp [joinedLexemes])).mono ?_⟩
  rintro e ⟨place, items, hitems, rfl⟩
  cases hitems
  exact ⟨place, rfl⟩

section Object

variable {α : Type} (name : α → String) (text : α → List Char) (P : α → Expression → Prop)

def itemText (f : α) : List Char := (keyText (name f)).toList ++ ' ' :: '=' :: ' ' :: text f

theorem readsAs_object {f : α} {fs : List α} (hnames : ∀ g ∈ f :: fs, composed (name g) = name g)
    (hfor : name f ≠ "for") (hreads : ∀ g ∈ f :: fs, ReadsAs (text g) (P g)) :
    ReadsAs ('{' :: ' ' :: (intercalate [',', ' '] ((f :: fs).map (itemText name text)) ++
      [' ', '}'])) fun e =>
        ∃ place items, Forall₂ (fun g item => keyOf item.1 = .ok (name g) ∧ P g item.2)
          (f :: fs) items ∧ e = .object place items := by
  choose! ls hls using hreads
  let lexemesOf (g : α) : List Lexeme := keyLexemes (name g) ++ ⟨.equal, ['=']⟩ :: ls g
  have hcuts : Forall₂ Lexes ((f :: fs).map (itemText name text))
      ((f :: fs).map lexemesOf) := by
    rw [forall₂_map_left_iff, forall₂_map_right_iff, forall₂_same]
    intro g hg
    exact (lexes_key (name g)).append (hls g hg).1.after_equal (cons_ne_nil _ _)
      (endsNumber_cons rfl (by decide) _)
  have hspells : Forall₂ SpellsItem ((f :: fs).map lexemesOf)
      ((f :: fs).map fun g item => keyOf item.1 = .ok (name g) ∧ P g item.2) := by
    rw [forall₂_map_left_iff, forall₂_map_right_iff, forall₂_same]
    intro g hg
    exact ⟨_, _, _, _, spells_key (hnames g hg), (hls g hg).2, rfl, fun _ _ hk hv => ⟨hk, hv⟩⟩
  have hfirst : ∀ l ∈ (joinedLexemes ((f :: fs).map lexemesOf)).head?,
      l ≠ ⟨.identifier, ['f', 'o', 'r']⟩ := by
    obtain ⟨l, hl, -⟩ := (spells_key (hnames f mem_cons_self)).starts
    have hhead : (joinedLexemes ((f :: fs).map lexemesOf)).head? = some l := by
      obtain ⟨ms, hms⟩ := head?_eq_some_iff.mp hl
      cases fs <;> simp [joinedLexemes, intercalate_cons_cons, lexemesOf, hms]
    rw [hhead]
    rintro l' ⟨⟩
    exact head_keyLexemes hfor l hl
  refine ⟨_, (lexes_joined hcuts).in_braces, (spells_object hspells hfirst).mono ?_⟩
  rintro e ⟨place, items, hitems, rfl⟩
  rw [forall₂_map_left_iff] at hitems
  exact ⟨place, items, hitems, rfl⟩

end Object

end Schemata.Hcl
