import Schemata.Emission.Imports
import Schemata.Proofs.Lowering.Mentions
import Schemata.Proofs.Template.Scanning

/-!
The identifiers of lowered texts. Import lines are found by reading finished texts, in which the
names of declarations stand between what the templates of rows say. Where every argument of a
template is set off from the text around it, no identifier goes across the border: the identifiers
of a text are those of the templates it is filled from, and those of the names in it.
-/

namespace Schemata

open Emission List

variable {rest : List Char} {name template : String}

namespace Emission

/-! ### Texts set off from one another -/

/-- A character that ends every identifier before it and begins none. -/
def isFence (c : Char) : Bool := !isIdentChar c && c != '.' && c != ':'

/-- The text is empty or begins with a fence. -/
def BeginsFenced (s : List Char) : Prop := ∀ c, s.head? = some c → isFence c = true

theorem not_isIdentStart_of_isFence {c : Char} (h : isFence c = true) : isIdentStart c = false := by
  simp only [isFence, isIdentChar, Bool.and_eq_true, Bool.not_eq_true', Bool.or_eq_false_iff] at h
  exact h.1.1.1

theorem identifiersFrom_fence {c : Char} (h : isFence c = true) (current rest : List Char) :
    identifiersFrom current (c :: rest) =
      identifiersFrom current [] ++ identifiersFrom [] rest := by
  have hstart := not_isIdentStart_of_isFence h
  simp only [isFence, Bool.and_eq_true, Bool.not_eq_true', bne_iff_ne, ne_eq] at h
  obtain ⟨⟨hident, hdot⟩, hcolon⟩ := h
  cases current <;> simp [identifiersFrom, hstart, hident, hdot, hcolon]

theorem BeginsFenced.any_head (h : BeginsFenced rest) (x : List Char) :
    (x ++ rest).head?.any isIdentStart = x.head?.any isIdentStart := by
  cases x with
  | cons c x => rfl
  | nil =>
    cases rest with
    | nil => rfl
    | cons c rest => simp [not_isIdentStart_of_isFence (h c rfl)]

theorem BeginsFenced.head_colon (h : BeginsFenced rest) (x : List Char) :
    (x ++ rest).head? = some ':' ↔ x.head? = some ':' := by
  cases x with
  | cons c x => rfl
  | nil =>
    cases rest with
    | nil => rfl
    | cons c rest =>
      refine iff_of_false ?_ (by simp)
      rintro ⟨rfl⟩
      exact absurd (h ':' rfl) (by decide)

/-- Whether the identifier being read goes on with `c`, which stands before `rest`. -/
def goesOn (current : List Char) (c : Char) (rest : List Char) : Bool :=
  isIdentChar c || (c = '.' && rest.head?.any isIdentStart) ||
    (c = ':' && rest.head? = some ':' && (rest.drop 1).head?.any isIdentStart) ||
    (c = ':' && current.head? = some ':' && rest.head?.any isIdentStart)

theorem identifiersFrom_cons (current : List Char) (c : Char) (rest : List Char) :
    identifiersFrom current (c :: rest) =
      if current.isEmpty then identifiersFrom (if isIdentStart c then [c] else []) rest
      else if goesOn current c rest then identifiersFrom (c :: current) rest
      else current.reverse :: identifiersFrom [] rest := by
  rw [identifiersFrom, goesOn]
  cases current.isEmpty with
  | true => rfl
  | false => grind

theorem BeginsFenced.goesOn_eq (h : BeginsFenced rest) (current : List Char) (c : Char)
    (x : List Char) : goesOn current c (x ++ rest) = goesOn current c x := by
  have hsecond : x.head? = some ':' →
      ((x ++ rest).drop 1).head?.any isIdentStart = (x.drop 1).head?.any isIdentStart := by
    intro hx
    cases x with
    | nil => cases hx
    | cons d x => exact h.any_head x
  simp only [goesOn, h.any_head x, h.head_colon x]
  by_cases hx : x.head? = some ':'
  · rw [hsecond hx]
  · simp [hx]

/-- Reading goes on afresh after a fence. -/
theorem identifiersFrom_append (h : BeginsFenced rest) (current x : List Char) :
    identifiersFrom current (x ++ rest) = identifiersFrom current x ++ identifiersFrom [] rest := by
  induction x generalizing current with
  | nil =>
    cases rest with
    | nil => simp [identifiersFrom]
    | cons c rest =>
      rw [nil_append, identifiersFrom_fence (h c rfl), identifiersFrom_fence (h c rfl) []]
      simp [identifiersFrom]
  | cons c x ih =>
    rw [cons_append, identifiersFrom_cons, identifiersFrom_cons current c x, h.goesOn_eq,
      ih, ih, ih]
    split
    · rfl
    · split <;> simp

theorem mem_identifiers {text : String} :
    name ∈ identifiers text ↔ name.toList ∈ identifiersFrom [] text.toList := by
  rw [identifiers, mem_map]
  constructor
  · rintro ⟨chars, hchars, rfl⟩
    rwa [String.toList_ofList]
  · intro h
    exact ⟨_, h, String.ofList_toList⟩

theorem mem_identifiers_intercalate {texts : List String} :
    name ∈ identifiers (", ".intercalate texts) ↔ ∃ text ∈ texts, name ∈ identifiers text := by
  induction texts with
  | nil => simp [mem_identifiers, identifiersFrom]
  | cons text rest ih =>
    cases rest with
    | nil => simp
    | cons next rest =>
      have hfence : BeginsFenced (", ".toList ++ (", ".intercalate (next :: rest)).toList) := by
        rintro c ⟨rfl⟩
        decide
      have hskip : ∀ s, identifiersFrom [] (", ".toList ++ s) = identifiersFrom [] s := by
        intro s
        simp [identifiersFrom, isIdentStart]
      rw [String.intercalate_cons_cons, exists_mem_cons_iff, ← ih]
      simp only [mem_identifiers, String.toList_append, append_assoc]
      rw [identifiersFrom_append hfence, hskip, mem_append]

end Emission

/-! ### Templates -/

namespace Template

def Piece.isFence : Piece → Bool
  | .literal c => Emission.isFence c
  | .argument _ | .allArguments => false

/-- Whether fences stand before and after all arguments, unless the template ends there. -/
def areFenced : List Piece → Bool
  | [] => true
  | p :: rest =>
    (if p.takesArguments then rest.head?.all Piece.isFence
      else p.isFence || !rest.head?.any Piece.takesArguments) && areFenced rest

/-- What a piece puts into a text beside what the template says. -/
def Piece.inserted (args : List String) (missing : String) : Piece → String
  | .literal _ => ""
  | p => p.fill args missing

section

variable {args : List String} {missing : String} {ps : List Piece}

theorem beginsFenced_filledChars (h : ps.head?.all Piece.isFence = true) :
    BeginsFenced (filledChars args missing ps) := by
  intro d hd
  cases ps with
  | nil => cases hd
  | cons p ps =>
    cases p with
    | literal c =>
      obtain rfl : c = d := by simpa [filledChars, Piece.fill] using hd
      exact h
    | _ => cases h

/-- What a text begins with does not depend on arguments that come later. -/
theorem head?_filledChars (h : ps.head?.any Piece.takesArguments = false) :
    (filledChars args missing ps).head? = (filledChars [] "" ps).head? := by
  cases ps with
  | nil => rfl
  | cons p ps =>
    cases p with
    | literal c => simp [filledChars, Piece.fill]
    | _ => cases h

/-- Nor does whether an identifier goes on: a colon is no fence, so there is no argument after
it. -/
theorem goesOn_filledChars (hfenced : areFenced ps = true)
    (h : ps.head?.any Piece.takesArguments = false) (current : List Char) (c : Char) :
    goesOn current c (filledChars args missing ps) = goesOn current c (filledChars [] "" ps) := by
  have hhead : (filledChars args missing ps).head? = (filledChars [] "" ps).head? :=
    head?_filledChars h
  have hsecond : (filledChars [] "" ps).head? = some ':' →
      ((filledChars args missing ps).drop 1).head? = ((filledChars [] "" ps).drop 1).head? := by
    intro hcolon
    cases ps with
    | nil => rfl
    | cons p ps =>
      cases p with
      | literal d =>
        obtain rfl : d = ':' := by simpa [filledChars, Piece.fill] using hcolon
        simp only [areFenced, Bool.and_eq_true] at hfenced
        have hnext : ps.head?.any Piece.takesArguments = false := by
          simpa [Piece.takesArguments, Piece.isFence, Emission.isFence] using hfenced.1
        have hrest : (filledChars args missing ps).head? = (filledChars [] "" ps).head? :=
          head?_filledChars hnext
        simpa [filledChars, Piece.fill] using hrest
      | _ => cases h
  simp only [goesOn, hhead]
  by_cases hcolon : (filledChars [] "" ps).head? = some ':'
  · rw [hsecond hcolon]
  · simp [hcolon]

/-- The identifiers of a filled template are those that it has without its arguments, and those of
the arguments. -/
theorem mem_identifiersFrom_filled {name : List Char} (h : areFenced ps = true)
    (current : List Char) (hcurrent : ps.head?.any Piece.takesArguments = true → current = []) :
    name ∈ identifiersFrom current (filledChars args missing ps) ↔
      name ∈ identifiersFrom current (filledChars [] "" ps) ∨
        ∃ p ∈ ps, name ∈ identifiersFrom [] (p.inserted args missing).toList := by
  induction ps generalizing current with
  | nil => simp [filledChars]
  | cons p ps ih =>
    rw [areFenced, Bool.and_eq_true] at h
    rw [filledChars_cons, filledChars_cons, exists_mem_cons_iff]
    cases htakes : p.takesArguments with
    | true =>
      have hfence : ps.head?.all Piece.isFence = true := by simpa [htakes] using h.1
      obtain rfl : current = [] := hcurrent (by simpa using htakes)
      have hempty : (p.fill [] "").toList = [] := by
        cases p <;> simp_all [Piece.fill, Piece.takesArguments]
      have hinserted : p.inserted args missing = p.fill args missing := by
        cases p <;> simp_all [Piece.inserted, Piece.takesArguments]
      rw [identifiersFrom_append (beginsFenced_filledChars hfence), mem_append,
        ih h.2 [] fun _ => rfl, hempty, hinserted, nil_append]
      tauto
    | false =>
      obtain ⟨c, rfl⟩ : ∃ c, p = .literal c := by
        cases p <;> simp_all [Piece.takesArguments]
      have hnone : name ∉ identifiersFrom [] ((Piece.literal c).inserted args missing).toList := by
        simp [Piece.inserted, identifiersFrom]
      have hchars : ∀ args missing, ((Piece.literal c).fill args missing).toList = [c] := by
        simp [Piece.fill]
      rw [hchars, hchars, singleton_append, singleton_append, or_iff_right hnone]
      by_cases hfence : Emission.isFence c = true
      · rw [identifiersFrom_fence hfence, identifiersFrom_fence hfence, mem_append,
          mem_append, ih h.2 [] fun _ => rfl, or_assoc]
      · have hnext : ps.head?.any Piece.takesArguments = false := by
          simpa [htakes, Piece.isFence, hfence] using h.1
        have hgo := fun current => ih h.2 current fun htrue => by simp [hnext] at htrue
        rw [identifiersFrom_cons, identifiersFrom_cons current c (filledChars [] "" ps),
          goesOn_filledChars h.2 hnext]
        split
        · exact hgo _
        · split
          · exact hgo _
          · rw [mem_cons, mem_cons, hgo, or_assoc]

end

/-- The characters that a template says itself. -/
def ownChars (ps : List Piece) : List Char :=
  ps.filterMap fun
    | .literal c => some c
    | .argument _ | .allArguments => none

theorem filledChars_nil (ps : List Piece) : filledChars [] "" ps = ownChars ps := by
  induction ps with
  | nil => rfl
  | cons p ps ih => cases p <;> simp [filledChars_cons, Piece.fill, ownChars, ih]

/-- Whether a template keeps its arguments apart, so that its own identifiers are those of its
text. -/
def isFenced (template : String) : Bool :=
  areFenced (pieces template) &&
    identifiersFrom [] template.toList == identifiersFrom [] (ownChars (pieces template))

theorem mem_identifiers_substitute {missing : String} {args : List String}
    (h : isFenced template = true) :
    name ∈ identifiers (substitute template args missing) ↔ name ∈ identifiers template ∨
      ∃ p ∈ pieces template, name ∈ identifiers (p.inserted args missing) := by
  rw [isFenced, Bool.and_eq_true, beq_iff_eq, ← filledChars_nil] at h
  simp only [mem_identifiers, toList_substitute, h.2]
  exact mem_identifiersFrom_filled h.1 [] fun _ => rfl

/-- What a piece takes from lists that stand for the arguments, or from the one for a missing
argument. -/
def Piece.pickOr {α : Type} (missing : List α) (args : List (List α)) : Piece → List α
  | .literal _ => []
  | .argument i => args.getD i missing
  | .allArguments => args.flatten

end Template

open Template Phrase

theorem Lowerer.toList_fill (l : Lowerer) {ps : List Piece}
    (h : pieces template = ps) (args : List String) :
    (l.fill template args).toList = filledChars args l.fallbackText ps := by
  rw [fill, toList_substitute, h]

/-! ### Phrases -/

mutual

/-- The templates and names of rows that the text of a phrase is made of, with the fallback and
the lengths of arrays. -/
def Phrase.rowTexts (l : Lowerer) : Phrase → List String
  | .verbatim text => [text]
  | .declared _ => []
  | .filled _ template parts =>
    template :: (pieces template).flatMap
      (Piece.pickOr [l.fallbackText] (rowTextsOfPhrases l parts))

def rowTextsOfPhrases (l : Lowerer) : List Phrase → List (List String)
  | [] => []
  | p :: ps => p.rowTexts l :: rowTextsOfPhrases l ps

end

mutual

/-- All templates of a phrase keep their arguments apart. -/
def Phrase.IsFenced : Phrase → Prop
  | .verbatim _ | .declared _ => True
  | .filled _ template parts => isFenced template = true ∧ AreFenced parts

def AreFenced : List Phrase → Prop
  | [] => True
  | p :: ps => p.IsFenced ∧ AreFenced ps

end

variable {l : Lowerer}

/-- The identifiers of a phrase are those of the rows it is made of and those of the names it
renders. -/
def Phrase.Shows (l : Lowerer) (id : String) (p : Phrase) : Prop :=
  (∃ text ∈ p.rowTexts l, id ∈ identifiers text) ∨
    ∃ name ∈ p.names, id ∈ identifiers (l.qualify name)

theorem rowTextsOfPhrases_eq_map (ps : List Phrase) :
    rowTextsOfPhrases l ps = ps.map (rowTexts l) := by
  induction ps with
  | nil => rfl
  | cons p ps ih => rw [rowTextsOfPhrases, ih, map_cons]

theorem textsOfPhrases_eq_map (ps : List Phrase) : textsOfPhrases l ps = ps.map (text l) := by
  induction ps with
  | nil => rfl
  | cons p ps ih => rw [textsOfPhrases, ih, map_cons]

/-- One piece: the argument it inserts is a part, or the fallback. -/
theorem mem_identifiers_inserted {parts : List Phrase} {id : String}
    (hparts : ∀ part ∈ parts, id ∈ identifiers (part.text l) ↔ part.Shows l id)
    (p : Piece) :
    id ∈ identifiers (p.inserted (textsOfPhrases l parts) l.fallbackText) ↔
      (∃ text ∈ p.pickOr [l.fallbackText] (rowTextsOfPhrases l parts), id ∈ identifiers text) ∨
        ∃ name ∈ p.pick (namesOfPhrases parts), id ∈ identifiers (l.qualify name) := by
  rw [textsOfPhrases_eq_map, rowTextsOfPhrases_eq_map, namesOfPhrases_eq_map]
  cases p with
  | literal c => simp [Piece.inserted, Piece.pickOr, Piece.pick, mem_identifiers, identifiersFrom]
  | argument i =>
    simp only [Piece.inserted, Piece.fill, Piece.pickOr,
      Piece.pick, getD_eq_getElem?_getD, List.getElem?_map]
    cases hi : parts[i]? with
    | none => simp
    | some part => exact hparts part (mem_of_getElem? hi)
  | allArguments =>
    simp only [Piece.inserted, Piece.fill, Piece.pickOr,
      Piece.pick, mem_identifiers_intercalate, mem_flatten, mem_map]
    constructor
    · rintro ⟨_, ⟨part, hpart, rfl⟩, hid⟩
      rcases (hparts part hpart).mp hid with ⟨text, htext, hid⟩ | ⟨name, hname, hid⟩
      · exact .inl ⟨text, ⟨_, ⟨part, hpart, rfl⟩, htext⟩, hid⟩
      · exact .inr ⟨name, ⟨_, ⟨part, hpart, rfl⟩, hname⟩, hid⟩
    · rintro (⟨text, ⟨_, ⟨part, hpart, rfl⟩, htext⟩, hid⟩ |
        ⟨name, ⟨_, ⟨part, hpart, rfl⟩, hname⟩, hid⟩)
      · exact ⟨_, ⟨part, hpart, rfl⟩, (hparts part hpart).mpr (.inl ⟨text, htext, hid⟩)⟩
      · exact ⟨_, ⟨part, hpart, rfl⟩, (hparts part hpart).mpr (.inr ⟨name, hname, hid⟩)⟩

/-- One step: a filled template shows what it says itself and what its parts show. -/
theorem mem_identifiers_filled {kind : Kind} {parts : List Phrase} {id : String}
    (hfenced : isFenced template = true)
    (hparts : ∀ part ∈ parts, id ∈ identifiers (part.text l) ↔ part.Shows l id) :
    id ∈ identifiers ((Phrase.filled kind template parts).text l) ↔
      (Phrase.filled kind template parts).Shows l id := by
  rw [text, Lowerer.fill, mem_identifiers_substitute hfenced, Shows,
    rowTexts, names, exists_mem_cons_iff, or_assoc]
  refine or_congr_right ?_
  simp only [mem_identifiers_inserted hparts, mem_flatMap]
  constructor
  · rintro ⟨p, hp, ⟨text, htext, hid⟩ | ⟨name, hname, hid⟩⟩
    · exact .inl ⟨text, ⟨p, hp, htext⟩, hid⟩
    · exact .inr ⟨name, ⟨p, hp, hname⟩, hid⟩
  · rintro (⟨text, ⟨p, hp, htext⟩, hid⟩ | ⟨name, ⟨p, hp, hname⟩, hid⟩)
    · exact ⟨p, hp, .inl ⟨text, htext, hid⟩⟩
    · exact ⟨p, hp, .inr ⟨name, hname, hid⟩⟩

mutual

theorem mem_identifiers_text {id : String} : ∀ p : Phrase, p.IsFenced →
    (id ∈ identifiers (p.text l) ↔ p.Shows l id)
  | .verbatim _, _ => by simp [text, Shows, rowTexts, names]
  | .declared name, _ => by simp [text, Shows, rowTexts, names]
  | .filled kind template parts, h => mem_identifiers_filled h.1 (mem_identifiers_texts parts h.2)

theorem mem_identifiers_texts {id : String} : ∀ ps : List Phrase, AreFenced ps →
    ∀ p ∈ ps, id ∈ identifiers (p.text l) ↔ p.Shows l id
  | [], _ => nofun
  | p :: ps, h => by
    rw [forall_mem_cons]
    exact ⟨mem_identifiers_text p h.1, mem_identifiers_texts ps h.2⟩

end

/-! ### Fenced tables -/

def Lowerer.FencesNames (l : Lowerer) : Prop :=
  ∀ k template, l.nameTemplate? k = some template → isFenced template = true

def Lowerer.FencesDefaults (l : Lowerer) : Prop :=
  ∀ k, isFenced (l.defaultTemplate k) = true

@[simp] theorem areFenced_append (ps qs : List Phrase) :
    AreFenced (ps ++ qs) ↔ AreFenced ps ∧ AreFenced qs := by
  induction ps with
  | nil => simp [AreFenced]
  | cons p ps ih => simp [AreFenced, ih, and_assoc]

@[simp] theorem areFenced_verbatim (texts : List String) : AreFenced (texts.map .verbatim) := by
  induction texts with
  | nil => trivial
  | cons text texts ih => exact ⟨trivial, ih⟩

mutual

theorem isFenced_phrase (h : l.FencesNames) : ∀ t : TypeExpr, (l.phrase t).IsFenced
  | .missing => trivial
  | .primitive _ _ => trivial
  | .reference _ _ => trivial
  | .emptyInline => trivial
  | .inline body => by
    rw [Lowerer.phrase]
    split <;> trivial
  | .indirection k elem => by
    have helem := isFenced_phrase h elem
    rw [Lowerer.phrase]
    cases hrow : l.indirectionName? k with
    | none => exact helem
    | some row =>
      have hname := l.indirectionName?_map k
      rw [hrow, Option.map_some, eq_comm, Option.or_eq_some_iff] at hname
      refine ⟨?_, helem, trivial⟩
      rcases hname with hname | ⟨-, hname⟩
      · exact h k _ hname
      · exact h .optional _ hname
  | .generic k args len => by
    rw [Lowerer.phrase]
    cases hrow : l.nameTemplate? (containerKind k len) with
    | none => trivial
    | some template => exact ⟨h _ _ hrow, by simpa using areFenced_phrases h args⟩

theorem areFenced_phrases (h : l.FencesNames) : ∀ ts : List TypeExpr, AreFenced (l.phrases ts)
  | [] => trivial
  | t :: ts => ⟨isFenced_phrase h t, areFenced_phrases h ts⟩

end

theorem isFenced_defaultPhrase (hnames : l.FencesNames) (hdefaults : l.FencesDefaults)
    (t : TypeExpr) : (l.defaultPhrase t).IsFenced := by
  cases t with
  | missing => trivial
  | primitive k s => trivial
  | reference name k => exact ⟨hdefaults .structRef, trivial, trivial⟩
  | indirection k elem => exact ⟨hdefaults _, isFenced_phrase hnames elem, trivial⟩
  | generic k args len =>
    exact ⟨hdefaults _, by simpa using areFenced_phrases hnames args⟩
  | inline body => exact ⟨hdefaults .structRef, isFenced_phrase hnames _, trivial⟩
  | emptyInline => exact ⟨hdefaults .structRef, trivial, trivial⟩

end Schemata
