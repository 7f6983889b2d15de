import Schemata.Normal.Order
import Schemata.Proofs.Lowering.Phrase
import Schemata.Proofs.Normal.FlatForm

/-!
The names that get into a lowered text. A template takes over the names of those arguments it
asks for. Where no struct is inline, every name in the text of a type is one that the type holds
by value or one behind an owning pointer in it: lowering brings in no others.
-/

namespace Schemata

open Schemata.Normal List

variable {name : String} {k : Kind} {args : List TypeExpr} {len : Int64}

/-- What a piece of a template takes from lists that stand for the arguments. -/
def Template.Piece.pick {α : Type} (args : List (List α)) : Piece → List α
  | .literal _ => []
  | .argument i => args.getD i []
  | .allArguments => args.flatten

theorem Template.Piece.mem_pick {α : Type} {args : List (List α)} {p : Piece} {a : α}
    (h : a ∈ p.pick args) : ∃ arg ∈ args, a ∈ arg := by
  cases p with
  | literal c => cases h
  | allArguments => exact mem_flatten.mp h
  | argument i =>
    rw [pick, getD_eq_getElem?_getD] at h
    cases hi : args[i]? with
    | none => simp [hi] at h
    | some arg =>
      rw [hi, Option.getD_some] at h
      exact ⟨arg, mem_of_getElem? hi, h⟩

mutual

/-- The names of declarations in the text of a phrase, in order. -/
def Phrase.names : Phrase → List String
  | .verbatim _ => []
  | .declared name => [name]
  | .filled _ template parts =>
    (Template.pieces template).flatMap (Template.Piece.pick (namesOfPhrases parts))

def namesOfPhrases : List Phrase → List (List String)
  | [] => []
  | p :: ps => p.names :: namesOfPhrases ps

end

theorem namesOfPhrases_eq_map (ps : List Phrase) : namesOfPhrases ps = ps.map Phrase.names := by
  induction ps with
  | nil => rfl
  | cons p ps ih => rw [namesOfPhrases, ih, map_cons]

/-- A template brings in no names of its own. -/
theorem Phrase.mem_names_filled {kind : Kind} {template : String} {parts : List Phrase}
    (h : name ∈ (Phrase.filled kind template parts).names) : ∃ part ∈ parts, name ∈ part.names := by
  rw [names, mem_flatMap] at h
  obtain ⟨piece, -, hpick⟩ := h
  obtain ⟨arg, harg, hname⟩ := Template.Piece.mem_pick hpick
  rw [namesOfPhrases_eq_map, mem_map] at harg
  obtain ⟨part, hpart, rfl⟩ := harg
  exact ⟨part, hpart, hname⟩

namespace Normal

mutual

def ownedRefsOfType : TypeExpr → List String
  | .missing | .primitive _ _ | .reference _ _ | .inline _ | .emptyInline => []
  | .indirection k elem =>
    (if k.isOwnership then valueRefsOfType elem else []) ++ ownedRefsOfType elem
  | .generic _ args _ => ownedRefsOfTypes args

def ownedRefsOfTypes : List TypeExpr → List String
  | [] => []
  | t :: ts => ownedRefsOfType t ++ ownedRefsOfTypes ts

end

/-- A type refers to a name by value or through an owning pointer. -/
def Mentions (t : TypeExpr) (name : String) : Prop :=
  name ∈ valueRefsOfType t ∨ name ∈ ownedRefsOfType t

theorem Mentions.indirection {elem : TypeExpr} (h : Mentions elem name) :
    Mentions (.indirection k elem) name := by
  rw [Mentions, valueRefsOfType, ownedRefsOfType, mem_append]
  rcases h with h | h
  · by_cases hk : k.isOwnership = true
    · simp [hk, h]
    · simp [hk, h]
  · exact .inr (.inr h)

theorem Mentions.generic (h : ∃ t ∈ args, Mentions t name) :
    Mentions (.generic k args len) name := by
  rw [Mentions, valueRefsOfType, ownedRefsOfType]
  induction args with
  | nil => simp at h
  | cons t ts ih =>
    rw [valueRefsOfTypes, ownedRefsOfTypes, mem_append, mem_append]
    rw [exists_mem_cons_iff] at h
    rcases h with (h | h) | h
    · exact .inl (.inl h)
    · exact .inr (.inl h)
    · exact (ih h).imp .inr .inr

def ownedRefs : Node → List String
  | .struct s => s.members.flatMap fun
    | .field f => ownedRefsOfType f.type
    | .oneof o => o.alternatives.flatMap (ownedRefsOfType ·.type)
    | .enum _ | .struct _ => []
  | .enum e => e.values.flatMap (ownedRefsOfType ·.payload)
  | .oneof o => o.alternatives.flatMap (ownedRefsOfType ·.type)
  | .space _ _ | .service _ => []

theorem mem_valueRefsOfMembers {f : Field} {ms : List Member} (hf : .field f ∈ ms)
    (hname : name ∈ valueRefsOfType f.type) : name ∈ valueRefsOfMembers ms := by
  induction ms with
  | nil => cases hf
  | cons m ms ih =>
    rcases mem_cons.mp hf with rfl | hf
    · cases f
      exact mem_append_left _ hname
    · have hrest := ih hf
      cases m with
      | field g => cases g; exact mem_append_right _ hrest
      | oneof o => cases o; exact mem_append_right _ hrest
      | enum e => exact hrest
      | struct s => exact mem_append_right _ hrest

theorem valueRefsOfAlternatives_eq (alts : List Alternative) :
    valueRefsOfAlternatives alts = alts.flatMap (valueRefsOfType ·.type) := by
  induction alts with
  | nil => rfl
  | cons a alts ih =>
    cases a
    rw [valueRefsOfAlternatives, ih, flatMap_cons]

end Normal

namespace Lowerer

theorem mem_names_arguments {l : Lowerer} {kind : Kind} {template : String}
    (h : name ∈ (Phrase.filled kind template
      (l.phrases args ++ (lengthArgument k len).map .verbatim)).names) :
    ∃ p ∈ l.phrases args, name ∈ p.names := by
  obtain ⟨part, hpart, hname⟩ := Phrase.mem_names_filled h
  rcases mem_append.mp hpart with hpart | hpart
  · exact ⟨part, hpart, hname⟩
  · obtain ⟨text, -, rfl⟩ := mem_map.mp hpart
    rw [Phrase.names] at hname
    cases hname

theorem mem_names_generic {l : Lowerer} (h : name ∈ (l.phrase (.generic k args len)).names) :
    ∃ p ∈ l.phrases args, name ∈ p.names := by
  rw [phrase] at h
  split at h
  · simp [Phrase.names] at h
  · exact mem_names_arguments h

mutual

theorem mentions_of_phrase (l : Lowerer) : ∀ (t : TypeExpr), isFlatType t = true →
    ∀ name ∈ (l.phrase t).names, Mentions t name
  | .missing, _, name, h => by simp [phrase, Phrase.names] at h
  | .primitive _ _, _, name, h => by simp [phrase, Phrase.names] at h
  | .emptyInline, _, name, h => by simp [phrase, Phrase.names] at h
  | .inline _, hflat, _, _ => by simp [isFlatType] at hflat
  | .reference ref k, _, name, h => .inl h
  | .indirection k elem, hflat, name, h => by
    rw [isFlatType] at hflat
    have helem : name ∈ (l.phrase elem).names := by
      rw [phrase] at h
      split at h
      · obtain ⟨part, hpart, hname⟩ := Phrase.mem_names_filled h
        rwa [mem_singleton.mp hpart] at hname
      · exact h
    exact (mentions_of_phrase l elem hflat name helem).indirection
  | .generic k args len, hflat, name, h => by
    rw [isFlatType] at hflat
    exact .generic (mentions_of_phrases l args hflat name (mem_names_generic h))

theorem mentions_of_phrases (l : Lowerer) : ∀ (ts : List TypeExpr), areFlatTypes ts = true →
    ∀ name, (∃ p ∈ l.phrases ts, name ∈ p.names) → ∃ t ∈ ts, Mentions t name
  | [], _, _, h => by simp [phrases] at h
  | t :: ts, hflat, name, h => by
    rw [areFlatTypes, Bool.and_eq_true] at hflat
    rw [phrases, exists_mem_cons_iff] at h
    rw [exists_mem_cons_iff]
    rcases h with h | h
    · exact .inl (mentions_of_phrase l t hflat.1 name h)
    · exact .inr (mentions_of_phrases l ts hflat.2 name h)

end

theorem mentions_of_defaultPhrase (l : Lowerer) {t : TypeExpr} (hflat : isFlatType t = true)
    (h : name ∈ (l.defaultPhrase t).names) : Mentions t name := by
  cases t with
  | missing => simp [defaultPhrase, Phrase.names] at h
  | primitive k s => simp [defaultPhrase, Phrase.names] at h
  | inline body => simp [isFlatType] at hflat
  | reference ref k =>
    obtain ⟨part, hpart, hname⟩ := Phrase.mem_names_filled h
    rw [mem_singleton.mp hpart] at hname
    exact .inl hname
  | indirection k elem =>
    obtain ⟨part, hpart, hname⟩ := Phrase.mem_names_filled h
    rw [mem_singleton.mp hpart] at hname
    rw [isFlatType] at hflat
    exact (mentions_of_phrase l elem hflat name hname).indirection
  | generic k args len =>
    rw [isFlatType] at hflat
    exact .generic (mentions_of_phrases l args hflat name (mem_names_arguments h))
  | emptyInline =>
    obtain ⟨part, hpart, hname⟩ := Phrase.mem_names_filled h
    rw [mem_singleton.mp hpart] at hname
    simp [phrase, Phrase.names] at hname

end Lowerer

end Schemata
