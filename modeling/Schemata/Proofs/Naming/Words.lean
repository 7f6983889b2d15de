import Mathlib
import Schemata.Naming.Style

/-!
What is left of a name when it is split into words. Separators are all that is lost, and no
word is empty, so a name in Pascal case is empty only if it had nothing but separators.
-/

namespace Schemata.Naming

theorem mem_of_mem_intercalate {α : Type} {c : α} {separator : List α} {parts : List (List α)}
    (h : c ∈ separator.intercalate parts) : c ∈ separator ∨ ∃ part ∈ parts, c ∈ part := by
  induction parts with
  | nil => simp at h
  | cons part rest ih =>
    cases rest with
    | nil => exact .inr ⟨part, List.mem_cons_self, by simpa using h⟩
    | cons next rest =>
      rw [List.intercalate_cons_cons, List.mem_append, List.mem_append] at h
      rcases h with (hpart | hseparator) | hrest
      · exact .inr ⟨part, List.mem_cons_self, hpart⟩
      · exact .inl hseparator
      · refine (ih hrest).imp_right ?_
        rintro ⟨other, hother, hc⟩
        exact ⟨other, List.mem_cons_of_mem _ hother, hc⟩

theorem capitalize_eq_empty {s : String} : capitalize s = "" ↔ s = "" := by
  have hchars : capitalizeChars s.toList = [] ↔ s.toList = [] := by
    cases s.toList <;> simp [capitalizeChars]
  rw [capitalize, String.ofList_eq_empty_iff, hchars, String.toList_eq_nil_iff]

/-- Only separators are lost. -/
theorem flatten_splitFrom (current : List Char) (previous : Option Char) (s : List Char) :
    (splitFrom current previous s).flatten = current.reverse ++ s.filter (!isSeparator ·) := by
  fun_induction splitFrom current previous s with
  | case1 previous current hcurrent => simp_all
  | case2 previous current hcurrent => simp
  | _ => simp_all

theorem ne_nil_of_mem_splitFrom {current : List Char} {previous : Option Char} {s w : List Char}
    (hw : w ∈ splitFrom current previous s) : w ≠ [] := by
  fun_induction splitFrom current previous s with
  | case1 => simp at hw
  | case2 previous current hcurrent =>
    rw [List.mem_singleton.mp hw]
    simpa using hcurrent
  | case3 current previous c rest hsep hcurrent ih => exact ih hw
  | case4 current previous c rest hsep hcurrent ih =>
    rcases List.mem_cons.mp hw with rfl | hw
    · simpa using hcurrent
    · exact ih hw
  | case5 current previous c rest hsep hbegins ih =>
    rcases List.mem_cons.mp hw with rfl | hw
    · simp only [Bool.and_eq_true, Bool.not_eq_true', List.isEmpty_eq_false_iff] at hbegins
      simpa using hbegins.1
    · exact ih hw
  | case6 current previous c rest hsep hgoes ih => exact ih hw

/-- Something is split off unless there are only separators left and no word was begun. -/
theorem splitFrom_eq_nil {current : List Char} {previous : Option Char} {s : List Char} :
    splitFrom current previous s = [] ↔ current = [] ∧ ∀ c ∈ s, isSeparator c = true := by
  have hflat : (splitFrom current previous s).flatten = [] ↔ splitFrom current previous s = [] := by
    rw [List.flatten_eq_nil_iff, List.eq_nil_iff_forall_not_mem]
    exact forall₂_congr fun w hw => iff_false_intro (ne_nil_of_mem_splitFrom hw)
  rw [← hflat, flatten_splitFrom]
  simp

theorem pascalCase_eq_empty {s : String} :
    pascalCase s = "" ↔ ∀ c ∈ s.toList, isSeparator c = true := by
  have hwords : words s = [] ↔ ∀ c ∈ s.toList, isSeparator c = true := by
    rw [words, List.map_eq_nil_iff, splitWords, splitFrom_eq_nil]
    exact and_iff_right rfl
  rw [← hwords, pascalCase]
  cases hs : words s with
  | nil => simp
  | cons w ws =>
    have hmem : w ∈ words s := by rw [hs]; exact List.mem_cons_self
    obtain ⟨chars, hchars, rfl⟩ := List.mem_map.mp hmem
    have hne : capitalize (String.ofList chars) ≠ "" := by
      rw [Ne, capitalize_eq_empty, String.ofList_eq_empty_iff]
      exact ne_nil_of_mem_splitFrom hchars
    simp [String.join_cons, hne]

end Schemata.Naming
