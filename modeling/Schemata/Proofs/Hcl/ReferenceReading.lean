import Schemata.Proofs.Hcl.TypePosition

/-!
References to declarations where a type is expected. A reference is written as its name, bare if
each part is an identifier and in quotation marks otherwise. Kinds share the bare names, the
words of the literals take no steps, and a quotation is no type: a reference is read back exactly
if its name keeps clear of the three.
-/

namespace Schemata.Hcl

open Text List

variable {w : String} {ws : List String}

/-! ### Dotted names -/

theorem foldl_addStep_name (place : Place) (root : String) (before steps : List Step) :
    steps.foldl addStep (.name place root before) = .name place root (before ++ steps) := by
  induction steps generalizing before with
  | nil => rw [foldl_nil, append_nil]
  | cons step steps ih =>
    rw [foldl_cons, addStep, ih, append_assoc, singleton_append]

theorem foldl_addStep_steps (source : Expression) (before steps : List Step) :
    steps.foldl addStep (.steps source before) = .steps source (before ++ steps) := by
  induction steps generalizing before with
  | nil => rw [foldl_nil, append_nil]
  | cons step steps ih =>
    rw [foldl_cons, addStep, ih, append_assoc, singleton_append]

def literalWords : List String := ["true", "false", "null"]

theorem wordExpression_of_not_mem (hw : w ∉ literalWords) (place : Place) :
    wordExpression place w = .name place w [] := by
  simp only [literalWords, mem_cons, not_mem_nil, or_false, not_or] at hw
  rw [wordExpression] <;> simp [hw]

theorem wordExpression_of_mem (hw : w ∈ literalWords) (place : Place) :
    ∃ v, wordExpression place w = .literal place v := by
  simp only [literalWords, mem_cons, not_mem_nil, or_false] at hw
  rcases hw with rfl | rfl | rfl <;> exact ⟨_, rfl⟩

/-- The expression a dotted name is: steps behind a literal are no part of a name. -/
theorem foldl_addStep_wordExpression (place : Place) (w : String) (steps : List Step) :
    (w ∉ literalWords ∧
      steps.foldl addStep (wordExpression place w) = .name place w steps) ∨
    (w ∈ literalWords ∧ steps = []) ∨
    (w ∈ literalWords ∧ steps ≠ [] ∧ ∃ v,
      steps.foldl addStep (wordExpression place w) = .steps (.literal place v) steps) := by
  by_cases hw : w ∈ literalWords
  · cases steps with
    | nil => exact .inr (.inl ⟨hw, rfl⟩)
    | cons step steps =>
      obtain ⟨v, hv⟩ := wordExpression_of_mem hw place
      refine .inr (.inr ⟨hw, cons_ne_nil _ _, v, ?_⟩)
      rw [foldl_cons, hv, addStep, foldl_addStep_steps, singleton_append]
      all_goals simp
  · left
    rw [wordExpression_of_not_mem hw, foldl_addStep_name, nil_append]
    exact ⟨hw, rfl⟩

theorem nameOf?_wordExpression (place : Place) (w : String) :
    nameOf? (wordExpression place w) = some w := by
  unfold wordExpression
  split
  · rfl
  · rfl
  · rfl
  · simp [nameOf?]

theorem typeOf_of_nameOf? {e : Expression} {name : String} (h : nameOf? e = some name) :
    typeOf e = namedType e.place name := by
  rw [typeOf, h]
  rintro place function arguments rfl
  cases h

/-- How a dotted name is read as a type. -/
theorem typeOf_foldl_addStep {steps : List Step} (hsteps : steps.mapM Step.name? = some ws)
    (place : Place) :
    ∃ place', typeOf (steps.foldl addStep (wordExpression place w)) =
      if ws = [] ∨ w ∉ literalWords then namedType place' (String.intercalate "." (w :: ws))
      else refuse place' .notAType := by
  have hnil : steps = [] ↔ ws = [] := by
    constructor
    · rintro rfl
      simpa using hsteps.symm
    · rintro rfl
      cases steps with
      | nil => rfl
      | cons step steps => simp [Option.bind_eq_some_iff] at hsteps
  rcases foldl_addStep_wordExpression place w steps with ⟨hw, he⟩ | ⟨hw, rfl⟩ | ⟨hw, hne, v, he⟩
  · have hname : nameOf? (.name place w steps) = some (String.intercalate "." (w :: ws)) := by
      rw [nameOf?, hsteps, Option.map_some]
    exact ⟨place, by rw [if_pos (.inr hw), he, typeOf_of_nameOf? hname]; rfl⟩
  · obtain rfl := hnil.mp rfl
    exact ⟨_, by rw [if_pos (.inl rfl), foldl_nil,
      typeOf_of_nameOf? (nameOf?_wordExpression place w), String.intercalate_singleton]⟩
  · refine ⟨place, ?_⟩
    rw [if_neg (by simp [hnil.not.mp hne, hw]), he, typeOf]
    · rfl
    · simp

/-! ### Names as they are written -/

def nameParts (n : String) : List String := (n.toList.splitOn '.').map String.ofList

theorem point_not_mem_of_isIdentifier {w : List Char} (hw : isIdentifier w = true) : '.' ∉ w := by
  cases w with
  | nil => exact not_mem_nil
  | cons c cs =>
    obtain ⟨hc, hcs⟩ := Bool.and_eq_true_iff.mp hw
    intro hpoint
    rcases mem_cons.mp hpoint with rfl | hmem
    · cases hc
    · cases all_eq_true.mp hcs '.' hmem

theorem nameParts_intercalate (hne : ws ≠ []) (hws : ∀ w ∈ ws, isIdentifier w.toList = true) :
    nameParts (String.intercalate "." ws) = ws := by
  have hpoint : ∀ l ∈ ws.map String.toList, '.' ∉ l := by
    intro l hl
    obtain ⟨w, hw, rfl⟩ := mem_map.mp hl
    exact point_not_mem_of_isIdentifier (hws w hw)
  have hsplit := splitOn_intercalate '.' hpoint (by simpa using hne)
  rw [nameParts, String.toList_intercalate]
  simp [hsplit]

/-- A bare name is read part by part. -/
theorem readsAs_dottedName (hws : ∀ v ∈ w :: ws, isIdentifier v.toList = true) :
    ReadsAs (String.intercalate "." (w :: ws)).toList fun e => ∃ place, typeOf e =
      if ws = [] ∨ w ∉ literalWords then namedType place (String.intercalate "." (w :: ws))
      else refuse place .notAType := by
  have hchars : ∀ v ∈ w.toList :: ws.map String.toList, isIdentifier v = true := by
    simpa using hws
  rw [String.toList_intercalate]
  refine (readsAs_name hchars).mono ?_
  rintro e ⟨place, steps, hsteps, rfl⟩
  rw [String.ofList_toList]
  exact typeOf_foldl_addStep (by simpa [Function.comp_def] using hsteps) place

theorem nameText_eq (n : String) :
    nameText n = if ∀ w ∈ nameParts n, isIdentifier w.toList = true then n else quoted n := by
  simp [nameText, nameParts]

end Schemata.Hcl
