import Schemata.Proofs.Naming.FileNames
import Schemata.Proofs.Text.Case

/-!
Names in Pascal case. The words of a name are put together again with the first character of each
in upper case, so such a name begins with the upper-case form of the first character that is no
separator, and has no separators. A word that begins inside a text without separators begins with
an upper-case letter, so a name in Pascal case stays as it is.
-/

namespace Schemata.Naming

open Text List

variable {c : Char} (s : String)

theorem toList_capitalize : (capitalize s).toList = capitalizeChars s.toList := by
  rw [capitalize, String.toList_ofList]

theorem toList_pascalCase :
    (pascalCase s).toList = (splitWords s.toList).flatMap capitalizeChars := by
  rw [pascalCase, words, String.toList_join, map_map, flatMap_map]
  simp [toList_capitalize, String.toList_ofList]

theorem mem_capitalizeChars {s : List Char} (h : c ∈ capitalizeChars s) :
    ∃ d ∈ s, c = d ∨ c = toUpper d := by
  cases s with
  | nil => cases h
  | cons d rest =>
    rcases mem_cons.mp h with rfl | hrest
    · exact ⟨d, mem_cons_self, .inr rfl⟩
    · exact ⟨c, mem_cons_of_mem _ hrest, .inl rfl⟩

theorem mem_pascalCase {s : String} (h : c ∈ (pascalCase s).toList) :
    ∃ d ∈ s.toList, isSeparator d = false ∧ (c = d ∨ c = toUpper d) := by
  rw [toList_pascalCase, mem_flatMap] at h
  obtain ⟨w, hw, hc⟩ := h
  obtain ⟨d, hd, hcase⟩ := mem_capitalizeChars hc
  obtain ⟨hmem, hsep⟩ := (mem_of_mem_splitFrom hw hd).resolve_left not_mem_nil
  exact ⟨d, hmem, hsep, hcase⟩

theorem head?_pascalCase :
    (pascalCase s).toList.head? = (s.toList.find? (!isSeparator ·)).map toUpper := by
  have hsplit := flatten_splitFrom [] none s.toList
  have hne : ∀ w ∈ splitWords s.toList, w ≠ [] := fun w hw => ne_nil_of_mem_splitFrom hw
  rw [reverse_nil, nil_append, ← splitWords] at hsplit
  rw [← head?_filter, ← hsplit, toList_pascalCase]
  cases hwords : splitWords s.toList with
  | nil => rfl
  | cons w ws =>
    obtain ⟨c, rest, rfl⟩ := exists_cons_of_ne_nil (hne w (by simp [hwords]))
    rfl

def startsLower : Bool := s.toList.head?.any fun c => 97 ≤ c.toNat && c.toNat ≤ 122

theorem startsLower_pascalCase : startsLower (pascalCase s) = false := by
  rw [startsLower, head?_pascalCase]
  cases s.toList.find? (!isSeparator ·) with
  | none => rfl
  | some d =>
    rw [Option.map_some, Option.any_some, Bool.and_eq_false_iff, decide_eq_false_iff_not,
      decide_eq_false_iff_not]
    rcases toUpper_cases d with ⟨hsame, hlower⟩ | hupper
    · rw [hsame]
      omega
    · omega

/-- A name in Pascal case is none of the words of a notation that begin with small letters. -/
theorem pascalCase_notMem {words : List String} (h : words.all startsLower = true) (s : String) :
    pascalCase s ∉ words := by
  intro hmem
  have hlower := all_eq_true.mp h _ hmem
  rw [startsLower_pascalCase] at hlower
  cases hlower

/-! ### Pascal case stays -/

theorem isSeparator_toUpper (h : isSeparator c = false) : isSeparator (toUpper c) = false := by
  rcases toUpper_cases c with ⟨hsame, -⟩ | hupper
  · rw [hsame, h]
  · simp only [isSeparator, Bool.or_eq_false_iff, decide_eq_false_iff_not]
    refine ⟨⟨⟨?_, ?_⟩, ?_⟩, ?_⟩ <;>
    · intro hmark
      rw [hmark] at hupper
      exact absurd hupper (by decide)

theorem not_isSeparator_of_mem_pascalCase {s : String} (h : c ∈ (pascalCase s).toList) :
    isSeparator c = false := by
  obtain ⟨d, -, hsep, rfl | rfl⟩ := mem_pascalCase h
  · exact hsep
  · exact isSeparator_toUpper hsep

/-- Where there are no separators, only upper-case letters begin words. -/
theorem capitalized_splitFrom (current : List Char) (previous : Option Char) (s : List Char)
    (hs : ∀ c ∈ s, isSeparator c = false) :
    (splitFrom current previous s).flatMap capitalizeChars =
      capitalizeChars (current.reverse ++ s) := by
  fun_induction splitFrom current previous s with
  | case1 previous current hcurrent => simp_all [capitalizeChars]
  | case2 previous current hcurrent => simp
  | case3 current previous c rest hsep hcurrent ih => simp_all
  | case4 current previous c rest hsep hcurrent ih => simp_all
  | case5 current previous c rest hsep hbegins ih =>
    rw [Bool.and_eq_true] at hbegins
    have hupper : toUpper c = c := by
      have hstarts := hbegins.2
      cases previous with
      | none => cases hstarts
      | some d =>
        simp only [Option.any_some, startsWord, Bool.and_eq_true] at hstarts
        exact toUpper_eq_self_of_isUpper hstarts.1
    obtain ⟨d, word, hword⟩ := exists_cons_of_ne_nil (l := current.reverse)
      (by simpa using hbegins.1)
    rw [flatMap_cons, ih fun x hx => hs x (mem_cons_of_mem _ hx), hword]
    simp [capitalizeChars, hupper]
  | case6 current previous c rest hsep hgoes ih =>
    rw [ih fun x hx => hs x (mem_cons_of_mem _ hx)]
    simp

theorem pascalCase_pascalCase : pascalCase (pascalCase s) = pascalCase s := by
  apply String.toList_injective
  have hsplit := capitalized_splitFrom [] none (pascalCase s).toList
    fun c hc => not_isSeparator_of_mem_pascalCase hc
  rw [toList_pascalCase (pascalCase s), splitWords, hsplit, reverse_nil, nil_append]
  have hhead := head?_pascalCase s
  cases hchars : (pascalCase s).toList with
  | nil => rfl
  | cons c rest =>
    rw [hchars, List.head?_cons, eq_comm, Option.map_eq_some_iff] at hhead
    obtain ⟨d, -, rfl⟩ := hhead
    rw [capitalizeChars, toUpper_toUpper]

end Schemata.Naming
