import Schemata.Catalog.Basic
import Schemata.Proofs.Lowering.Phrase
import Schemata.Proofs.Schema.Soundness
import Schemata.Proofs.Template.Scanning

/-!
Templates get the arguments they ask for. Three tables have to agree on how many arguments a
kind has: the arity that a valid type keeps to, the slots that the templates of a catalog are
checked against, and the arguments that lowering passes. They do for every kind of fixed arity,
also where lowering leaves the row of the kind: an array without a length takes the row of
lists, and an indirection without a row that of optionals.
-/

namespace Schemata

open Template Catalog Lowerer

variable {k : Kind} {template : String} {n : Nat}

/-! ### Checked tables -/

namespace Catalog

theorem fits_of_checkTemplate {target : String} (hcheck : checkTemplate target k template = .ok ())
    (hslots : slots k = some n) : Fits template n := by
  intro i hi
  obtain ⟨top, htop, hle⟩ := exists_highest hi
  rw [checkTemplate, hslots, htop] at hcheck
  by_cases hge : top ≥ n
  · simp [hge] at hcheck
  · omega

/-- Both templates of every row ask only for arguments of their kind. -/
def IsChecked (target : String) (table : Table) : Prop :=
  ∀ entry ∈ table, checkTemplate target entry.1 entry.2.name = .ok () ∧
    checkTemplate target entry.1 entry.2.default = .ok ()

instance (target : String) (table : Table) : Decidable (IsChecked target table) :=
  inferInstanceAs (Decidable (∀ entry ∈ table, _))

end Catalog

namespace Lowerer

variable {l : Lowerer} {target : String}

theorem mem_table_of_row? {row : Row} (h : l.row? k = some row) : (k, row) ∈ l.table := by
  rw [row?] at h
  obtain ⟨before, after, heq, -⟩ := List.lookup_eq_some_iff.mp h
  rw [heq]
  simp

theorem fits_nameTemplate? (htable : IsChecked target l.table)
    (h : l.nameTemplate? k = some template) (hslots : slots k = some n) : Fits template n := by
  rw [nameTemplate?, Option.bind_eq_some_iff] at h
  obtain ⟨row, hrow, hname⟩ := h
  split at hname
  · cases hname
  · cases hname
    exact fits_of_checkTemplate (htable _ (mem_table_of_row? hrow)).1 hslots

theorem fits_defaultTemplate (htable : IsChecked target l.table)
    (hslots : slots k = some n) : Fits (l.defaultTemplate k) n := by
  rw [defaultTemplate]
  cases hrow : l.row? k with
  | none => simp [Fits, pieces, piecesFrom]
  | some row => exact fits_of_checkTemplate (htable _ (mem_table_of_row? hrow)).2 hslots

end Lowerer

/-! ### Slots and arguments -/

theorem slots_of_isIndirection (h : k.isIndirection = true) : slots k = some 1 := by
  revert h
  cases k <;> decide

/-- The arguments of a valid container and its length fill the slots of the row it takes. -/
theorem slots_containerKind {len : Int64} {given : Nat} (harity : arityProblems k given = [])
    (hslots : slots (containerKind k len) = some n) :
    given + (lengthArgument k len).length = n := by
  by_cases harray : k = .array
  · subst harray
    have hgiven : given = 1 := by
      simpa [arityProblems, Kind.isContainer, Kind.arity?] using harity
    by_cases hlen : len ≤ 0
    · have hnot : ¬ len > 0 := Int64.not_lt.mpr hlen
      simp only [containerKind, hlen, and_self, if_true, slots, Option.some.injEq] at hslots
      simp [lengthArgument, hnot, hgiven, hslots]
    · have hpos : len > 0 := Int64.not_le.mp hlen
      simp only [containerKind, hlen, and_false, if_false, slots, Option.some.injEq] at hslots
      simp [lengthArgument, hpos, hgiven, hslots]
  · have hkind : containerKind k len = k := by simp [containerKind, harray]
    have hlength : lengthArgument k len = [] := by simp [lengthArgument, harray]
    rw [hkind] at hslots
    rw [hlength, List.length_nil, Nat.add_zero]
    revert harity hslots
    cases k <;> simp_all [arityProblems, Kind.isContainer, Kind.arity?, slots]

theorem isContainer_containerKind (h : arityProblems k n = []) (len : Int64) :
    (containerKind k len).isContainer = true := by
  rw [containerKind]
  split
  · rfl
  · by_contra hnot
    rw [Bool.not_eq_true] at hnot
    simp [arityProblems, hnot] at h

/-- Only arrays leave their row or have a length. -/
theorem containerKind_of_ne (h : k ≠ .array) (len : Int64) :
    containerKind k len = k ∧ lengthArgument k len = [] := by
  simp [containerKind, lengthArgument, h]

/-- The containers that pass the check on arguments, by how many they have. -/
theorem container_cases (h : arityProblems k n = []) :
    (n = 1 ∧ (k = .list ∨ k = .array ∨ k = .set ∨ k = .unorderedSet ∨ k = .optional)) ∨
      (n = 2 ∧ (k = .map ∨ k = .unorderedMap)) ∨ (k = .tuple ∨ k = .pair ∨ k = .variant) := by
  cases k <;> simp_all [arityProblems, Kind.isContainer, Kind.arity?]

/-! ### Fillings -/

/-- A template filled while a type is lowered, with the arguments that were passed. -/
structure Filling where
  kind : Kind
  template : String
  args : List String
deriving DecidableEq, Repr

mutual

/-- The templates filled for a phrase, in it and in all of its parts. -/
def Phrase.fillings (l : Lowerer) : Phrase → List Filling
  | .verbatim _ | .declared _ => []
  | .filled kind template parts =>
    fillingsOfPhrases l parts ++ [⟨kind, template, textsOfPhrases l parts⟩]

def fillingsOfPhrases (l : Lowerer) : List Phrase → List Filling
  | [] => []
  | p :: ps => p.fillings l ++ fillingsOfPhrases l ps

end

@[simp] theorem fillingsOfPhrases_append (l : Lowerer) (ps qs : List Phrase) :
    fillingsOfPhrases l (ps ++ qs) = fillingsOfPhrases l ps ++ fillingsOfPhrases l qs := by
  induction ps with
  | nil => rfl
  | cons p ps ih => simp [fillingsOfPhrases, ih]

@[simp] theorem fillingsOfPhrases_verbatim (l : Lowerer) (texts : List String) :
    fillingsOfPhrases l (texts.map .verbatim) = [] := by
  induction texts with
  | nil => rfl
  | cons s texts ih => exact ih

/-- A filling of a kind with a fixed number of slots has an argument at every position. -/
def Filling.IsFull (f : Filling) : Prop :=
  ∀ n, slots f.kind = some n → Fits f.template f.args.length

section

variable {l : Lowerer} {target : String}

/-- One step: a template that is filled has its positions filled if the parts are as many as its
kind has slots. -/
theorem full_filled {kind : Kind} {parts : List Phrase}
    (hfits : ∀ n, slots kind = some n → Fits template n ∧ parts.length = n)
    (hparts : ∀ f ∈ fillingsOfPhrases l parts, f.IsFull) :
    ∀ f ∈ (Phrase.filled kind template parts).fillings l, f.IsFull := by
  rw [Phrase.fillings, List.forall_mem_append, List.forall_mem_singleton]
  refine ⟨hparts, ?_⟩
  intro n hslots
  obtain ⟨htemplate, hlength⟩ := hfits n hslots
  rw [length_textsOfPhrases, hlength]
  exact htemplate

mutual

theorem full_phrase (htable : IsChecked target l.table) :
    ∀ t : TypeExpr, SoundType t → ∀ f ∈ (l.phrase t).fillings l, f.IsFull
  | .missing, _ => nofun
  | .primitive _ _, _ => nofun
  | .reference _ _, _ => nofun
  | .emptyInline, _ => nofun
  | .inline body, _ => by
    rw [phrase]
    split <;> nofun
  | .indirection k elem, hsound => by
    have helem := full_phrase htable elem hsound.2
    rw [phrase]
    cases hrow : l.indirectionName? k with
    | none => exact helem
    | some row =>
      refine full_filled ?_ (by simpa [fillingsOfPhrases] using helem)
      intro n hslots
      rw [indirectionName?] at hrow
      cases hk : l.nameTemplate? k with
      | some template =>
        rw [hk] at hrow
        cases hrow
        have hn := (slots_of_isIndirection hsound.1).symm.trans hslots
        exact ⟨fits_nameTemplate? htable hk hslots, Option.some.inj hn⟩
      | none =>
        rw [hk, Option.map_none, Option.none_or, Option.map_eq_some_iff] at hrow
        obtain ⟨template, hoptional, rfl⟩ := hrow
        exact ⟨fits_nameTemplate? htable hoptional hslots, Option.some.inj hslots⟩
  | .generic k args len, hsound => by
    rw [phrase]
    cases hrow : l.nameTemplate? (containerKind k len) with
    | none => nofun
    | some template =>
      refine full_filled ?_ (by simpa using full_phrases htable args hsound.2)
      intro n hslots
      have hcount := slots_containerKind hsound.1 hslots
      refine ⟨fits_nameTemplate? htable hrow hslots, ?_⟩
      simpa using hcount

theorem full_phrases (htable : IsChecked target l.table) :
    ∀ ts : List TypeExpr, SoundTypes ts → ∀ f ∈ fillingsOfPhrases l (l.phrases ts), f.IsFull
  | [], _ => nofun
  | t :: ts, hsound => by
    rw [phrases, fillingsOfPhrases, List.forall_mem_append]
    exact ⟨full_phrase htable t hsound.1, full_phrases htable ts hsound.2⟩

end

theorem full_defaultPhrase (htable : IsChecked target l.table) {t : TypeExpr}
    (hsound : SoundType t) : ∀ f ∈ (l.defaultPhrase t).fillings l, f.IsFull := by
  cases t with
  | missing => nofun
  | primitive k s => nofun
  | reference name k =>
    refine full_filled ?_ nofun
    intro n hslots
    exact ⟨fits_defaultTemplate htable hslots, Option.some.inj hslots⟩
  | indirection k elem =>
    refine full_filled ?_ (by simpa [fillingsOfPhrases] using full_phrase htable elem hsound.2)
    intro n hslots
    refine ⟨fits_defaultTemplate htable hslots, ?_⟩
    split at hslots
    · exact Option.some.inj ((slots_of_isIndirection hsound.1).symm.trans hslots)
    · exact Option.some.inj hslots
  | generic k args len =>
    refine full_filled ?_ (by simpa using full_phrases htable args hsound.2)
    intro n hslots
    have hcount := slots_containerKind hsound.1 hslots
    refine ⟨fits_defaultTemplate htable hslots, ?_⟩
    simpa using hcount
  | inline body =>
    refine full_filled ?_ (by simpa [fillingsOfPhrases] using full_phrase htable _ hsound)
    intro n hslots
    exact ⟨fits_defaultTemplate htable hslots, Option.some.inj hslots⟩
  | emptyInline => exact hsound.elim

end

/-! ### No hole is left -/

theorem exists_slots (hvariant : k ≠ .variant) (htuple : k ≠ .tuple) : ∃ n, slots k = some n := by
  cases k <;> simp_all [slots]

/-- The templates filled when a type is named and when its default value is written. -/
def Lowerer.fillings (l : Lowerer) (t : TypeExpr) : List Filling :=
  (l.phrase t).fillings l ++ (l.defaultPhrase t).fillings l

/-- With a checked table and a valid type, every template that is filled, variants and tuples
apart, has an argument at each of its positions, and would read the same whatever stood for a
missing one. The fillings are those of the phrases the texts are composed from. -/
theorem lowering_leaves_no_hole {l : Lowerer} (hplain : l.IsPlain) {target : String}
    (htable : Catalog.IsChecked target l.table) {t : TypeExpr} {path : String}
    (hvalid : t.issues path = []) :
    ((l.phrase t).text l = (l.typeName t).text ∧
        (l.defaultPhrase t).text l = (l.defaultValue t).text) ∧
      ∀ f ∈ l.fillings t, f.kind ≠ .variant → f.kind ≠ .tuple →
        Template.Fits f.template f.args.length ∧
          ∀ missing, Template.substitute f.template f.args missing = l.fill f.template f.args := by
  refine ⟨⟨Lowerer.text_phrase hplain t, Lowerer.text_defaultPhrase hplain t⟩, ?_⟩
  intro f hf hvariant htuple
  have hsound : SoundType t := (t.issues_eq_nil path).mp hvalid
  have hfull : f.IsFull := by
    rcases List.mem_append.mp hf with hname | hdefault
    · exact full_phrase htable t hsound f hname
    · exact full_defaultPhrase htable hsound f hdefault
  obtain ⟨n, hslots⟩ := exists_slots hvariant htuple
  have hfits := hfull n hslots
  exact ⟨hfits, fun missing => hfits.substitute_eq missing l.fallbackText⟩

/-- Rows for shelves of books; there is none for pointers. -/
def shelfLowerer : Lowerer where
  table :=
    [(.array, ⟨"[{0}; {1}]", "[{0}()] * {1}"⟩),
     (.list, ⟨"[{0}]", "[]"⟩),
     (.map, ⟨"{0} -> {1}", ""⟩),
     (.optional, ⟨"{0}?", "no {0}"⟩)]
  qualify name := "lib." ++ name

/-- Books by topic: a pointer to twelve of them. -/
def shelfType : TypeExpr :=
  .generic .map [.prim .string, .indirection .uniquePtr (.generic .array [.ref "Book"] 12)] 0

theorem shelf_leaves_no_hole :
    Catalog.IsChecked "shelf" shelfLowerer.table ∧ shelfType.issues "Shelf" = [] ∧
      ⟨.optional, "{0}?", ["[lib.Book; 12]"]⟩ ∈ shelfLowerer.fillings shelfType ∧
      Template.Fits "{0}?" 1 := by
  have htable : Catalog.IsChecked "shelf" shelfLowerer.table := by decide
  have hvalid : shelfType.issues "Shelf" = [] := by decide
  have hplain : shelfLowerer.IsPlain := ⟨fun _ => rfl, rfl⟩
  have hmem : ⟨.optional, "{0}?", ["[lib.Book; 12]"]⟩ ∈ shelfLowerer.fillings shelfType := by
    decide
  exact ⟨htable, hvalid, hmem,
    ((lowering_leaves_no_hole hplain htable hvalid).2 _ hmem (by decide) (by decide)).1⟩

end Schemata
