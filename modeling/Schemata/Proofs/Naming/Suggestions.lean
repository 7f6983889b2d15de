import Schemata.Proofs.Naming.Letters
import Schemata.Proofs.Text.Utf8
import Schemata.Similarity

/-!
Suggestions for a misspelt name. They are the candidates near enough to it, sorted by a linear
order: by distance and then as their bytes are ordered. No two different candidates are equal in
it, so the order in which candidates are known does not matter. Names of the same letters are at
distance zero and come first.
-/

namespace Schemata

open Naming List

variable {key : String}

def remoteness (key c : String) : Nat := editDistance (Naming.normalize key) (Naming.normalize c)

/-- Whether a candidate is suggested at all. -/
def IsNear (key : String) (reach : Int) (c : String) : Prop :=
  c ≠ key ∧ (remoteness key c : Int) ≤ reach

instance (key : String) (reach : Int) : DecidablePred (IsNear key reach) := fun _ =>
  inferInstanceAs (Decidable (_ ∧ _))

/-- The nearer candidate comes first, and of two that are as near the one whose bytes do. -/
def ComesFirst (key c d : String) : Prop :=
  remoteness key c < remoteness key d ∨
    remoteness key c = remoteness key d ∧ c.toUTF8.toList ≤ d.toUTF8.toList

instance (key c d : String) : Decidable (ComesFirst key c d) :=
  inferInstanceAs (Decidable (_ ∨ _ ∧ _))

theorem comesFirst_iff {c d : String} :
    ComesFirst key c d ↔ toLex (remoteness key c, c) ≤ toLex (remoteness key d, d) := by
  rw [ComesFirst, Text.Utf8.toUTF8_le_iff, Prod.Lex.toLex_le_toLex]

/-- Candidates are sorted by what they score, and carry it no further. -/
theorem suggest_eq (key : String) (candidates : List String) (reach : Int) :
    suggest key candidates reach =
      (candidates.filter (IsNear key reach)).mergeSort fun c d => ComesFirst key c d := by
  have hnear (c : String) : (c != key && ((remoteness key c : Nat) : Int) ≤ reach) =
      decide (IsNear key reach c) := by
    rw [Bool.eq_iff_iff, decide_eq_true_iff, IsNear]
    simp
  have hscored : (candidates.filterMap fun c =>
      if c != key && ((remoteness key c : Nat) : Int) ≤ reach then some (remoteness key c, c)
      else none) = (candidates.filter (IsNear key reach)).map fun c => (remoteness key c, c) := by
    rw [← filterMap_eq_map, ← filterMap_eq_filter, filterMap_filterMap]
    refine filterMap_congr fun c _ => ?_
    rw [hnear, Option.guard]
    split <;> rfl
  refine (congrArg (fun scored => (mergeSort scored _).map (·.2)) hscored).trans ?_
  rw [← map_mergeSort (r := fun c d => ComesFirst key c d), map_map]
  · exact map_id _
  · intro c _ d _
    rw [Bool.eq_iff_iff, decide_eq_true_iff, ComesFirst, Text.Utf8.toUTF8_le_iff]
    simp

/-- The candidates within reach are suggested, each as often as it is known. -/
theorem suggest_perm (key : String) (candidates : List String) (reach : Int) :
    (suggest key candidates reach).Perm (candidates.filter (IsNear key reach)) := by
  rw [suggest_eq]
  exact mergeSort_perm _ _

theorem suggest_pairwise (key : String) (candidates : List String) (reach : Int) :
    (suggest key candidates reach).Pairwise (ComesFirst key) := by
  rw [suggest_eq]
  refine (pairwise_mergeSort ?_ ?_ _).imp of_decide_eq_true
  · simp only [decide_eq_true_eq, comesFirst_iff]
    exact fun a b c => le_trans
  · simp only [Bool.or_eq_true, decide_eq_true_eq, comesFirst_iff]
    exact fun a b => le_total _ _

/-- What is suggested depends on which candidates there are, not on their order. -/
theorem suggest_congr {candidates others : List String} (reach : Int) (h : candidates.Perm others) :
    suggest key candidates reach = suggest key others reach := by
  have hperm := (suggest_perm key candidates reach).trans
    ((h.filter _).trans (suggest_perm key others reach).symm)
  refine hperm.eq_of_pairwise (fun c d _ _ hcd hdc => ?_) (suggest_pairwise _ _ _)
    (suggest_pairwise _ _ _)
  have hsame := le_antisymm (comesFirst_iff.mp hcd) (comesFirst_iff.mp hdc)
  exact congrArg (fun p => (ofLex p).2) hsame

/-! ### Other spellings -/

/-- Names of ASCII that differ in case and separators alone are no edit apart. -/
theorem remoteness_eq_zero {c : String} (hkey : ∀ x ∈ key.toList, x.toNat < 0x80)
    (hc : ∀ x ∈ c.toList, x.toNat < 0x80)
    (h : (lettersOf c.toList).map Char.toLower = (lettersOf key.toList).map Char.toLower) :
    remoteness key c = 0 := by
  have hspelled {s : String} (hs : ∀ x ∈ s.toList, x.toNat < 0x80) :
      spelled s.toList = (lettersOf s.toList).map Char.toLower :=
    map_congr_left fun x hx => if_pos (hs x (mem_of_mem_filter hx))
  have hsame : (Naming.normalize key).toList = (Naming.normalize c).toList := by
    rw [toList_normalize, toList_normalize, hspelled hkey, hspelled hc, h]
  rw [remoteness, editDistance, EditDistance.distance, if_pos hsame]

theorem ahead_of_remote {c d : String} {candidates front back : List String} {reach : Int}
    (hc : remoteness key c = 0) (hd : 0 < remoteness key d)
    (hsplit : suggest key candidates reach = front ++ d :: back) : c ∉ d :: back := by
  have hsorted := suggest_pairwise key candidates reach
  rw [hsplit, pairwise_append, pairwise_cons] at hsorted
  intro hmem
  rcases mem_cons.mp hmem with rfl | hback
  · omega
  · rcases hsorted.2.1.1 c hback with hlt | ⟨heq, -⟩ <;> omega

/-- The suggestions are the candidates within reach, sorted by distance and then by their bytes,
whatever order they are known in. Another spelling of the name is among them, ahead of all that
differ from it. -/
theorem suggest_exact (key : String) (candidates : List String) (reach : Int) :
    (suggest key candidates reach).Perm (candidates.filter (IsNear key reach)) ∧
      (suggest key candidates reach).Pairwise (ComesFirst key) ∧
      (∀ others, candidates.Perm others →
        suggest key candidates reach = suggest key others reach) ∧
      (0 ≤ reach → (∀ x ∈ key.toList, x.toNat < 0x80) →
        ∀ c ∈ candidates, (∀ x ∈ c.toList, x.toNat < 0x80) → c ≠ key →
          (lettersOf c.toList).map Char.toLower = (lettersOf key.toList).map Char.toLower →
            c ∈ suggest key candidates reach ∧
              ∀ front d back, suggest key candidates reach = front ++ d :: back →
                0 < remoteness key d → c ∈ front ∧ c ∉ back) := by
  refine ⟨suggest_perm _ _ _, suggest_pairwise _ _ _, fun _ => suggest_congr reach, ?_⟩
  intro hreach hkey c hmem hc hne hletters
  have hzero := remoteness_eq_zero hkey hc hletters
  have hin : c ∈ suggest key candidates reach := by
    rw [(suggest_perm key candidates reach).mem_iff, mem_filter, decide_eq_true_eq]
    exact ⟨hmem, hne, by omega⟩
  refine ⟨hin, fun front d back hsplit hd => ?_⟩
  have hnot := ahead_of_remote hzero hd hsplit
  rw [hsplit, mem_append] at hin
  exact ⟨hin.resolve_right hnot, fun hback => hnot (mem_cons_of_mem _ hback)⟩

theorem suggest_exact_orderID :
    (0 ≤ (2 : Int) ∧ (∀ x ∈ "order_id".toList, x.toNat < 0x80) ∧
      (∀ x ∈ "OrderID".toList, x.toNat < 0x80) ∧ "OrderID" ≠ "order_id" ∧
      (lettersOf "OrderID".toList).map Char.toLower =
        (lettersOf "order_id".toList).map Char.toLower) ∧
      "OrderID" ∈ suggest "order_id" ["orders", "OrderID", "order_id"] 2 := by
  have hletters : (lettersOf "OrderID".toList).map Char.toLower =
      (lettersOf "order_id".toList).map Char.toLower := by simp [lettersOf]
  refine ⟨⟨by simp, by simp, by simp, by simp, hletters⟩, ?_⟩
  exact ((suggest_exact "order_id" ["orders", "OrderID", "order_id"] 2).2.2.2 (by simp) (by simp)
    "OrderID" (by simp) (by simp) (by simp) hletters).1

end Schemata
