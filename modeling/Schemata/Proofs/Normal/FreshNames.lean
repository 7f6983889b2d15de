import Mathlib
import Schemata.Normal.Names

/-!
Fresh names. The search for a numbered name tries as many numbers as there are
names in use, so by counting it always meets a free one: numbered names differ
from each other and from the name they number.
-/

namespace Schemata.Normal

open List

variable {taken : List String} {name : String}

/-- A name with a number behind it, as the search for a free name tries them. -/
def numbered (name : String) (i : Nat) : String := name ++ toString i

theorem numbered_injective (name : String) : Function.Injective (numbered name) := by
  intro i j h
  have hrepr : Nat.repr i = Nat.repr j := (String.append_right_inj name).mp h
  exact Nat.repr_injective hrepr

theorem numbered_ne (name : String) (i : Nat) : numbered name i ≠ name := by
  intro h
  have hempty : toString i = "" := by
    apply (String.append_right_inj name).mp
    rw [String.append_empty]
    exact h
  have hpos : 0 < (Nat.repr i).length := Nat.length_repr_pos
  rw [show Nat.repr i = "" from hempty] at hpos
  exact absurd hpos (by decide)

/-- The search stops at the first free number, or after its last try. -/
theorem firstFree_eq_numbered (taken : List String) (name : String) (tries next : Nat) :
    ∃ i, firstFree taken name tries next = numbered name i ∧ next ≤ i ∧
      (∀ j, next ≤ j → j < i → numbered name j ∈ taken) ∧
      (numbered name i ∈ taken → i = next + tries) := by
  induction tries generalizing next with
  | zero =>
    refine ⟨next, rfl, le_rfl, ?_, ?_⟩
    · intro j hlow hhigh
      omega
    · intro _
      rfl
  | succ tries ih =>
    by_cases hmem : numbered name next ∈ taken
    · obtain ⟨i, heq, hle, hall, hlast⟩ := ih (next + 1)
      refine ⟨i, ?_, by omega, ?_, ?_⟩
      · rw [← heq]
        simp only [firstFree, contains_iff_mem]
        exact if_pos hmem
      · intro j hlow hhigh
        rcases Nat.eq_or_lt_of_le hlow with rfl | hlt
        · exact hmem
        · exact hall j hlt hhigh
      · intro hi
        have := hlast hi
        omega
    · refine ⟨next, ?_, le_rfl, ?_, ?_⟩
      · simp only [firstFree, contains_iff_mem]
        exact if_neg hmem
      · intro j hlow hhigh
        omega
      · intro h
        exact absurd h hmem

/-- A name in use has fewer used numbers behind it than there are names in use. -/
theorem exists_numbered_notMem (hname : name ∈ taken) (next : Nat) :
    ∃ i, next ≤ i ∧ i < next + taken.length ∧ numbered name i ∉ taken := by
  by_contra hnone
  push Not at hnone
  let candidates := name :: (List.range' next taken.length).map (numbered name)
  have hnodup : candidates.Nodup := by
    refine nodup_cons.mpr ⟨?_, ?_⟩
    · intro hmem
      obtain ⟨i, -, hi⟩ := mem_map.mp hmem
      exact numbered_ne name i hi
    · exact List.Nodup.map (numbered_injective name) nodup_range'
  have hsubset : candidates ⊆ taken := by
    intro c hc
    rcases mem_cons.mp hc with rfl | hc
    · exact hname
    · obtain ⟨i, hi, rfl⟩ := mem_map.mp hc
      obtain ⟨hlow, hhigh⟩ := mem_range'_1.mp hi
      exact hnone i hlow hhigh
  have hlength := hnodup.length_le_of_subset hsubset
  simp [candidates] at hlength

/-- With the names `taken` in use, a request for `name` is given a free name: the name itself, or
the name with the least number from two on that makes it free. No more numbers are tried than there
are names in use. -/
structure GivenFor (taken : List String) (name given : String) : Prop where
  free : given ∉ taken
  same : name ∉ taken → given = name
  least : name ∈ taken → ∃ i, 2 ≤ i ∧ i < 2 + taken.length ∧ given = numbered name i ∧
    ∀ j, 2 ≤ j → j < i → numbered name j ∈ taken

theorem givenFor_freshName (taken : List String) (name : String) :
    GivenFor taken name (freshName taken name) := by
  by_cases hname : name ∈ taken
  · have hfresh : freshName taken name = firstFree taken name taken.length 2 := by
      simp only [freshName, contains_iff_mem]
      exact if_pos hname
    obtain ⟨i, heq, hle, hall, hlast⟩ := firstFree_eq_numbered taken name taken.length 2
    -- otherwise every number the search could try would be in use
    obtain ⟨j, hlow, hhigh, hfree⟩ := exists_numbered_notMem hname 2
    have hi : i ≤ j := Nat.not_lt.mp fun hlt => hfree (hall j hlow hlt)
    refine ⟨?_, absurd hname, fun _ => ⟨i, hle, by omega, hfresh.trans heq, hall⟩⟩
    rw [hfresh, heq]
    intro hmem
    have := hlast hmem
    omega
  · have hfresh : freshName taken name = name := by
      simp only [freshName, contains_iff_mem]
      exact if_neg hname
    exact ⟨by rwa [hfresh], fun _ => hfresh, fun h => absurd h hname⟩

theorem freshName_notMem (taken : List String) (name : String) : freshName taken name ∉ taken :=
  (givenFor_freshName taken name).free

/-- The names `fresh` can be given out while `taken` are in use: each is given once,
and none of them is in use. -/
structure Unused (taken fresh : List String) : Prop where
  nodup : fresh.Nodup
  free : ∀ n ∈ fresh, n ∉ taken

theorem Unused.nil (taken : List String) : Unused taken [] where
  nodup := nodup_nil
  free n hn := by simp at hn

theorem Unused.singleton (h : name ∉ taken) : Unused taken [name] where
  nodup := nodup_singleton name
  free n hn := by rw [mem_singleton.mp hn]; exact h

/-- Names given out one after the other. -/
theorem Unused.append {fresh₁ fresh₂ : List String} (a : Unused taken fresh₁)
    (b : Unused (fresh₁ ++ taken) fresh₂) : Unused taken (fresh₂ ++ fresh₁) where
  nodup := by
    refine nodup_append.mpr ⟨b.nodup, a.nodup, ?_⟩
    intro x hx y hy hxy
    subst hxy
    exact b.free x hx (mem_append_left _ hy)
  free n hn := by
    rcases mem_append.mp hn with hn | hn
    · intro hmem
      exact b.free n hn (mem_append_right _ hmem)
    · exact a.free n hn

/-- Only the empty name gives the empty name, and only when it is free. -/
theorem freshName_eq_empty : freshName taken name = "" ↔ name = "" ∧ "" ∉ taken := by
  have hgiven := givenFor_freshName taken name
  by_cases hname : name ∈ taken
  · obtain ⟨i, -, -, hi, -⟩ := hgiven.least hname
    have hne : numbered name i ≠ "" := by
      intro h
      have hempty := (String.append_eq_empty_iff.mp h).1
      rw [hempty] at h
      exact numbered_ne "" i h
    rw [hi]
    simp only [hne, false_iff, not_and, not_not]
    rintro rfl
    exact hname
  · rw [hgiven.same hname]
    refine ⟨?_, And.left⟩
    rintro rfl
    exact ⟨rfl, hname⟩

end Schemata.Normal
