import Schemata.Proofs.Lowering.Phrase

/-!
No type is lowered to the empty text. A row that names a type has a template that is not empty,
and each piece of a template, a placeholder as well, stands for at least one character once the
arguments do. So the text of a phrase is not empty if the texts it is composed from are not, and
the fallback, which stands for all that is missing, never is.
-/

namespace Schemata

open List

variable {template : String}

/-! ### Filled templates -/

namespace Template

theorem pieces_ne_nil (h : template ≠ "") : pieces template ≠ [] := by
  rw [pieces]
  cases hcs : template.toList with
  | nil => exact absurd (String.toList_eq_nil_iff.mp hcs) h
  | cons c rest =>
    rw [piecesFrom]
    split <;> exact cons_ne_nil _ _

theorem intercalate_ne_empty {separator : String} {texts : List String} (hne : texts ≠ [])
    (htexts : ∀ s ∈ texts, s ≠ "") : separator.intercalate texts ≠ "" := by
  match texts, hne with
  | [s], _ =>
    rw [String.intercalate_singleton]
    exact htexts s (mem_singleton_self s)
  | s :: t :: rest, _ =>
    rw [String.intercalate_cons_cons]
    intro h
    have hs : s = "" := (String.append_eq_empty_iff.mp (String.append_eq_empty_iff.mp h).1).1
    exact htexts s mem_cons_self hs

variable {args : List String} {missing : String}

theorem Piece.fill_ne_empty (hne : args ≠ []) (hargs : ∀ a ∈ args, a ≠ "") (hmissing : missing ≠ "")
    (p : Piece) : p.fill args missing ≠ "" := by
  cases p with
  | literal c => simp [Piece.fill]
  | allArguments => exact intercalate_ne_empty hne hargs
  | argument i =>
    rw [Piece.fill, getD_eq_getElem?_getD]
    cases harg : args[i]? with
    | none => exact hmissing
    | some a => exact hargs a (mem_of_getElem? harg)

theorem substitute_ne_empty (htemplate : template ≠ "") (hne : args ≠ [])
    (hargs : ∀ a ∈ args, a ≠ "") (hmissing : missing ≠ "") :
    substitute template args missing ≠ "" := by
  rw [substitute]
  obtain ⟨p, ps, hpieces⟩ := exists_cons_of_ne_nil (pieces_ne_nil htemplate)
  rw [hpieces, map_cons, String.join_cons]
  intro h
  exact p.fill_ne_empty hne hargs hmissing (String.append_eq_empty_iff.mp h).1

end Template

/-! ### Texts of phrases -/

theorem showInt_ne_empty (n : Int64) : showInt n ≠ "" := by
  rw [showInt, Int.toString_eq_repr, Int.repr_eq_if]
  split
  · exact Nat.repr_ne_empty
  · simp

namespace Lowerer

variable {l : Lowerer}

theorem nameTemplate?_ne_empty {k : Kind} (h : l.nameTemplate? k = some template) :
    template ≠ "" := by
  rw [nameTemplate?, Option.bind_eq_some_iff] at h
  obtain ⟨row, -, hname⟩ := h
  split at hname
  · cases hname
  next hne => exact Option.some.inj hname ▸ hne

theorem indirectionName?_ne_empty {k kind : Kind}
    (h : l.indirectionName? k = some (kind, template)) : template ≠ "" := by
  have htemplate := l.indirectionName?_map k
  rw [h, Option.map_some] at htemplate
  rcases Option.or_eq_some_iff.mp htemplate.symm with hown | ⟨-, hoptional⟩
  · exact nameTemplate?_ne_empty hown
  · exact nameTemplate?_ne_empty hoptional

theorem fallbackText_ne_empty (l : Lowerer) : l.fallbackText ≠ "" := by
  rw [fallbackText]
  split
  next h => exact h
  next =>
    cases hbytes : l.nameTemplate? .bytes with
    | none => decide
    | some name => exact nameTemplate?_ne_empty hbytes

theorem scalar_ne_empty (l : Lowerer) (k : Kind) (spelling : String) :
    (l.scalar k spelling).text ≠ "" := by
  rw [scalar]
  split
  next h => exact h.2.1
  next =>
    split
    next name hname =>
      split
      · exact nameTemplate?_ne_empty hname
      · exact l.fallbackText_ne_empty
    next => exact l.fallbackText_ne_empty

end Lowerer

mutual

/-- References have a name and containers an argument. The body of an inline struct is left to
its own declaration. -/
def IsFilledIn : TypeExpr → Prop
  | .reference name _ => name ≠ ""
  | .indirection _ elem => IsFilledIn elem
  | .generic _ args _ => args ≠ [] ∧ AreFilledIn args
  | .missing | .primitive .. | .inline _ | .emptyInline => True

def AreFilledIn : List TypeExpr → Prop
  | [] => True
  | t :: ts => IsFilledIn t ∧ AreFilledIn ts

end

namespace Lowerer

variable {l : Lowerer}

theorem filled_ne_empty {kind : Kind} {parts : List Phrase} (htemplate : template ≠ "")
    (hne : parts ≠ []) (hparts : ∀ s ∈ textsOfPhrases l parts, s ≠ "") :
    (Phrase.filled kind template parts).text l ≠ "" := by
  have hlength : (textsOfPhrases l parts).length ≠ 0 := by simpa using hne
  exact Template.substitute_ne_empty htemplate (ne_nil_of_length_pos (by omega)) hparts
    l.fallbackText_ne_empty

mutual

theorem phrase_ne_empty (hqualify : l.qualify = id) :
    ∀ t : TypeExpr, IsFilledIn t → (l.phrase t).text l ≠ ""
  | .missing, _ => l.fallbackText_ne_empty
  | .emptyInline, _ => l.fallbackText_ne_empty
  | .primitive k spelling, _ => l.scalar_ne_empty k spelling
  | .reference name k, hname => by
    rw [phrase, Phrase.text, hqualify]
    exact hname
  | .indirection k elem, helem => by
    have hchild := phrase_ne_empty hqualify elem helem
    rw [phrase]
    split
    next kind template hrow =>
      refine filled_ne_empty (indirectionName?_ne_empty hrow) (cons_ne_nil _ _) ?_
      simpa [textsOfPhrases] using hchild
    next => exact hchild
  | .generic k args len, ⟨hne, hargs⟩ => by
    have htexts := phrases_ne_empty hqualify args hargs
    rw [phrase]
    split
    next => exact l.fallbackText_ne_empty
    next template hrow =>
      -- the length of an array stands behind its arguments
      have hlength : ∀ s ∈ lengthArgument k len, s ≠ "" := by
        rw [lengthArgument]
        split <;> simp [showInt_ne_empty]
      refine filled_ne_empty (nameTemplate?_ne_empty hrow) ?_ ?_
      · cases args with
        | nil => exact absurd rfl hne
        | cons t ts => simp [phrases]
      · intro s hs
        rw [textsOfPhrases_append, textsOfPhrases_verbatim, mem_append] at hs
        exact hs.elim (htexts s) (hlength s)
  | .inline body, _ => by
    rw [phrase]
    split
    next hnamed =>
      rw [Phrase.text, hqualify]
      simpa [Struct.isNamed] using (Bool.and_eq_true_iff.mp hnamed).2
    next => exact l.fallbackText_ne_empty

theorem phrases_ne_empty (hqualify : l.qualify = id) :
    ∀ ts : List TypeExpr, AreFilledIn ts → ∀ s ∈ textsOfPhrases l (l.phrases ts), s ≠ ""
  | [], _ => by simp [phrases, textsOfPhrases]
  | t :: ts, ⟨ht, hts⟩ => by
    rw [phrases, textsOfPhrases, forall_mem_cons]
    exact ⟨phrase_ne_empty hqualify t ht, phrases_ne_empty hqualify ts hts⟩

end

end Lowerer

/-- Whatever the table holds, a type in which references have names and containers arguments
has a text. -/
theorem lowering_never_empty {l : Lowerer} (hplain : l.IsPlain) (hqualify : l.qualify = id)
    {t : TypeExpr} (hfilled : IsFilledIn t) : (l.typeName t).text ≠ "" := by
  rw [← Lowerer.text_phrase hplain t]
  exact Lowerer.phrase_ne_empty hqualify t hfilled

/-- Templates of placeholders only, a row that only has a default, and no row for pointers. -/
def bareLowerer : Lowerer where
  table :=
    [(.bytes, ⟨"{7}", ""⟩), (.list, ⟨"{...}", ""⟩), (.map, ⟨"{1}{9}", ""⟩),
     (.set, ⟨"", "none"⟩)]

/-- Sets of books by topic, and an open array of pointers to authors. -/
def bareType : TypeExpr :=
  .container .map
    [.container .set [.ref "Book"], .generic .array [.indirection .pointer (.ref "Author")] 0]

theorem bareType_never_empty :
    IsFilledIn bareType ∧ (bareLowerer.typeName bareType).text = "Author{7}" ∧
      (bareLowerer.typeName bareType).text ≠ "" := by
  have hfilled : IsFilledIn bareType := by
    simp [bareType, TypeExpr.container, TypeExpr.ref, IsFilledIn, AreFilledIn]
  have hplain : bareLowerer.IsPlain := ⟨fun _ => rfl, rfl⟩
  exact ⟨hfilled, by decide, lowering_never_empty hplain rfl hfilled⟩

end Schemata
