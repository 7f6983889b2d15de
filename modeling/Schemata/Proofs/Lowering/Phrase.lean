import Mathlib
import Schemata.Lowering

/-!
How a lowered text is put together. Lowering goes straight to text; a phrase keeps the templates
that are filled on the way, each with the kind of the row it comes from and one part for every
argument. The text of a phrase is the text that lowering gives, so a fact about all templates
filled for a type, or about the names that get into its text, is one about its phrase.
-/

namespace Schemata

/-- A text as lowering composes it. -/
inductive Phrase where
  /-- Text that stands as it is: the name of a scalar, a length, the fallback. -/
  | verbatim (text : String)
  /-- The name of a declaration, to be rendered. -/
  | declared (name : String)
  /-- The template of a row, with the arguments it is filled with. -/
  | filled (kind : Kind) (template : String) (parts : List Phrase)

mutual

def Phrase.text (l : Lowerer) : Phrase → String
  | .verbatim text => text
  | .declared name => l.qualify name
  | .filled _ template parts => l.fill template (textsOfPhrases l parts)

def textsOfPhrases (l : Lowerer) : List Phrase → List String
  | [] => []
  | p :: ps => p.text l :: textsOfPhrases l ps

end

variable (l : Lowerer)

@[simp] theorem textsOfPhrases_append (ps qs : List Phrase) :
    textsOfPhrases l (ps ++ qs) = textsOfPhrases l ps ++ textsOfPhrases l qs := by
  induction ps with
  | nil => rfl
  | cons p ps ih => simp [textsOfPhrases, ih]

@[simp] theorem textsOfPhrases_verbatim (texts : List String) :
    textsOfPhrases l (texts.map .verbatim) = texts := by
  induction texts with
  | nil => rfl
  | cons s texts ih => simp [textsOfPhrases, Phrase.text, ih]

@[simp] theorem length_textsOfPhrases (ps : List Phrase) :
    (textsOfPhrases l ps).length = ps.length := by
  induction ps with
  | nil => rfl
  | cons p ps ih => simp [textsOfPhrases, ih]

namespace Lowerer

/-- A lowerer that has nothing but its table to go by. -/
structure IsPlain : Prop where
  override : ∀ t, l.override? t = none
  union : l.union? = none

/-- The row that names an indirection, with its kind: its own, or else that of optionals. -/
def indirectionName? (k : Kind) : Option (Kind × String) :=
  ((l.nameTemplate? k).map (k, ·)).or ((l.nameTemplate? .optional).map (.optional, ·))

mutual

/-- How the name of a type is composed. -/
def phrase (l : Lowerer) : TypeExpr → Phrase
  | .missing => .verbatim l.fallbackText
  | .primitive k s => .verbatim (l.scalar k s).text
  | .reference name _ => .declared name
  | .indirection k elem =>
    match l.indirectionName? k with
    | some (kind, template) => .filled kind template [phrase l elem]
    | none => phrase l elem
  | .generic k args len =>
    match l.nameTemplate? (containerKind k len) with
    | none => .verbatim l.fallbackText
    | some template =>
      .filled (containerKind k len) template
        (phrases l args ++ (lengthArgument k len).map .verbatim)
  | .inline body => if body.isNamed then .declared body.name else .verbatim l.fallbackText
  | .emptyInline => .verbatim l.fallbackText

def phrases (l : Lowerer) : List TypeExpr → List Phrase
  | [] => []
  | t :: ts => phrase l t :: phrases l ts

end

/-- How the default value of a type is composed. The row of an indirection counts here even if
it names no type. -/
def defaultPhrase : TypeExpr → Phrase
  | .missing => .verbatim ""
  | .primitive k _ => .verbatim (l.defaultTemplate k)
  | .reference name _ => .filled .structRef (l.defaultTemplate .structRef) [.declared name]
  | .indirection k elem =>
    let kind := if (l.row? k).isSome then k else .optional
    .filled kind (l.defaultTemplate kind) [l.phrase elem]
  | .generic k args len =>
    .filled (containerKind k len) (l.defaultTemplate (containerKind k len))
      (l.phrases args ++ (lengthArgument k len).map .verbatim)
  | .inline body => .filled .structRef (l.defaultTemplate .structRef) [l.phrase (.inline body)]
  | .emptyInline => .filled .structRef (l.defaultTemplate .structRef) [l.phrase .emptyInline]

@[simp] theorem length_phrases (ts : List TypeExpr) : (l.phrases ts).length = ts.length := by
  induction ts with
  | nil => rfl
  | cons t ts ih => simp [phrases, ih]

theorem indirectionName?_map (k : Kind) :
    (l.indirectionName? k).map Prod.snd = (l.nameTemplate? k).or (l.nameTemplate? .optional) := by
  rw [indirectionName?]
  cases l.nameTemplate? k with
  | some template => rfl
  | none => cases l.nameTemplate? .optional <;> rfl

theorem default_of_indirection (k : Kind) :
    (((l.row? k).or (l.row? .optional)).map (·.default)).getD "" =
      l.defaultTemplate (if (l.row? k).isSome then k else .optional) := by
  rw [defaultTemplate]
  cases hk : l.row? k with
  | some row => simp [hk]
  | none => simp

variable {l}

mutual

theorem text_phrase (h : l.IsPlain) : ∀ t : TypeExpr, (l.phrase t).text l = (l.typeName t).text
  | .missing => rfl
  | .primitive k s => by
    rw [phrase, typeName, h.override]
    rfl
  | .reference name k => by
    rw [phrase, typeName, h.override]
    rfl
  | .indirection k elem => by
    have helem := text_phrase h elem
    have htemplate := l.indirectionName?_map k
    rw [phrase, typeName, h.override]
    cases hrow : l.indirectionName? k with
    | none =>
      rw [hrow, Option.map_none] at htemplate
      simp only [← htemplate, helem]
    | some row =>
      rw [hrow, Option.map_some] at htemplate
      simp only [← htemplate, Phrase.text, textsOfPhrases, helem]
  | .generic k args len => by
    have hargs := texts_phrases h args
    have hunion : (if k = .variant then l.union? else none) = none := by
      rw [h.union, ite_self]
    rw [phrase, typeName, h.override]
    simp only [hunion]
    cases hrow : l.nameTemplate? (containerKind k len) with
    | none => rfl
    | some template =>
      simp only [Phrase.text, textsOfPhrases_append, textsOfPhrases_verbatim, hargs]
  | .inline body => by
    rw [phrase, typeName, h.override]
    cases body.isNamed <;> rfl
  | .emptyInline => by
    rw [phrase, typeName, h.override]
    rfl

theorem texts_phrases (h : l.IsPlain) :
    ∀ ts : List TypeExpr, textsOfPhrases l (l.phrases ts) = (l.typeNames ts).1
  | [] => rfl
  | t :: ts => by
    rw [phrases, textsOfPhrases, typeNames, text_phrase h t, texts_phrases h ts]

end

theorem text_defaultPhrase (h : l.IsPlain) (t : TypeExpr) :
    (l.defaultPhrase t).text l = (l.defaultValue t).text := by
  cases t with
  | missing => rfl
  | primitive k s => rfl
  | reference name k => rfl
  | indirection k elem =>
    simp only [defaultPhrase, defaultValue, Phrase.text, textsOfPhrases, text_phrase h,
      default_of_indirection]
  | generic k args len =>
    simp only [defaultPhrase, defaultValue, Phrase.text, textsOfPhrases_append,
      textsOfPhrases_verbatim, texts_phrases h]
  | inline body =>
    simp only [defaultPhrase, defaultValue, Phrase.text, textsOfPhrases, text_phrase h]
  | emptyInline =>
    simp only [defaultPhrase, defaultValue, Phrase.text, textsOfPhrases, text_phrase h]

end Lowerer

end Schemata
