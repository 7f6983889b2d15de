import Mathlib
import Schemata.Similarity

/-!
The distance of two texts is the least number of edits that lead from one to the other.

An edit puts in, takes out or replaces one character at any place. The least number of edits
satisfies the recursion on first characters: no edit brings a text nearer to another by more than
one, and each branch of the recursion is an edit. The table is filled from the front instead, so
that its rows hold the distances of texts read backwards; edits can be read backwards as well.
-/

namespace Schemata.EditDistance

open List

/-! ### Edits -/

inductive Edit : List Char → List Char → Prop where
  | insert (front : List Char) (c : Char) (back : List Char) :
      Edit (front ++ back) (front ++ c :: back)
  | delete (front : List Char) (c : Char) (back : List Char) :
      Edit (front ++ c :: back) (front ++ back)
  | substitute (front : List Char) (c d : Char) (back : List Char) :
      Edit (front ++ c :: back) (front ++ d :: back)

/-- A text becomes another by so many edits, one after the other. -/
inductive Edits : Nat → List Char → List Char → Prop where
  | none (a : List Char) : Edits 0 a a
  | step {n : Nat} {a b c : List Char} : Edit a b → Edits n b c → Edits (n + 1) a c

variable {m n : Nat} {a b c : List Char}

theorem Edits.trans (hab : Edits m a b) (hbc : Edits n b c) : Edits (m + n) a c := by
  induction hab with
  | none => rwa [Nat.zero_add]
  | step hedit _ ih =>
    rw [Nat.add_right_comm]
    exact .step hedit (ih hbc)

theorem Edits.map {f : List Char → List Char} (hf : ∀ a b, Edit a b → Edit (f a) (f b))
    (h : Edits n a b) : Edits n (f a) (f b) := by
  induction h with
  | none a => exact .none (f a)
  | step hedit _ ih => exact .step (hf _ _ hedit) ih

theorem Edit.cons (x : Char) (h : Edit a b) : Edit (x :: a) (x :: b) := by
  cases h with
  | insert front c back => exact .insert (x :: front) c back
  | delete front c back => exact .delete (x :: front) c back
  | substitute front c d back => exact .substitute (x :: front) c d back

theorem Edits.cons (x : Char) (h : Edits n a b) : Edits n (x :: a) (x :: b) :=
  h.map fun _ _ => Edit.cons x

theorem Edit.reverse (h : Edit a b) : Edit a.reverse b.reverse := by
  cases h with
  | insert front c back => simpa using Edit.insert back.reverse c front.reverse
  | delete front c back => simpa using Edit.delete back.reverse c front.reverse
  | substitute front c d back => simpa using Edit.substitute back.reverse c d front.reverse

/-! ### The recursion -/

/-- The distance by recursion on the first characters. -/
def leastCost : List Char → List Char → Nat
  | [], b => b.length
  | x :: a, [] => (x :: a).length
  | x :: a, y :: b =>
    min (min (leastCost (x :: a) b + 1) (leastCost a (y :: b) + 1))
      (leastCost a b + if x = y then 0 else 1)
termination_by a b => a.length + b.length

theorem leastCost_nil_left (b : List Char) : leastCost [] b = b.length := by
  rw [leastCost]

theorem leastCost_nil_right (a : List Char) : leastCost a [] = a.length := by
  cases a <;> rw [leastCost]

theorem leastCost_cons_cons (x y : Char) (a b : List Char) :
    leastCost (x :: a) (y :: b) =
      min (min (leastCost (x :: a) b + 1) (leastCost a (y :: b) + 1))
        (leastCost a b + if x = y then 0 else 1) := by
  rw [leastCost]

theorem leastCost_comm (a b : List Char) : leastCost a b = leastCost b a := by
  fun_induction leastCost a b with
  | case1 b => rw [leastCost_nil_right]
  | case2 x a => rw [leastCost_nil_left]
  | case3 x a y b hdelete hinsert hkeep =>
    rw [leastCost_cons_cons, hdelete, hinsert, hkeep, min_comm (leastCost b (x :: a) + 1)]
    simp only [eq_comm]

theorem leastCost_self (a : List Char) : leastCost a a = 0 := by
  induction a with
  | nil => rw [leastCost_nil_left, length_nil]
  | cons x a ih => rw [leastCost_cons_cons, ih, if_pos rfl, Nat.min_zero]

theorem leastCost_cons_le (x : Char) (a b : List Char) :
    leastCost (x :: a) b ≤ leastCost a b + 1 := by
  cases b with
  | nil => rw [leastCost_nil_right, leastCost_nil_right, length_cons]
  | cons y b =>
    rw [leastCost_cons_cons]
    omega

theorem le_leastCost_cons (x : Char) (a b : List Char) :
    leastCost a b ≤ leastCost (x :: a) b + 1 := by
  induction b with
  | nil =>
    rw [leastCost_nil_right, leastCost_nil_right, length_cons]
    omega
  | cons y b ih =>
    have hinsert : leastCost a (y :: b) ≤ leastCost a b + 1 := by
      rw [leastCost_comm a, leastCost_comm a]
      exact leastCost_cons_le y b a
    rw [leastCost_cons_cons]
    omega

theorem leastCost_substitute_le (x y : Char) (a b : List Char) :
    leastCost (x :: a) b ≤ leastCost (y :: a) b + 1 := by
  induction b with
  | nil => simp [leastCost_nil_right]
  | cons z b ih =>
    rw [leastCost_cons_cons, leastCost_cons_cons]
    split <;> split <;> omega

/-- What an edit changes at the front of two texts it changes behind a common front. -/
theorem leastCost_append_le (h : ∀ c, leastCost a c ≤ leastCost b c + 1) (front c : List Char) :
    leastCost (front ++ a) c ≤ leastCost (front ++ b) c + 1 := by
  induction front generalizing c with
  | nil => exact h c
  | cons x front ih =>
    induction c with
    | nil =>
      have hlength := ih []
      simp only [leastCost_nil_right, cons_append, length_cons] at hlength ⊢
      omega
    | cons y c ihc =>
      have hdelete := ih (y :: c)
      have hkeep := ih c
      simp only [cons_append, leastCost_cons_cons] at ihc ⊢
      omega

theorem Edit.leastCost_le (h : Edit a b) (c : List Char) : leastCost a c ≤ leastCost b c + 1 := by
  cases h with
  | insert front x back => exact leastCost_append_le (le_leastCost_cons x back) front c
  | delete front x back => exact leastCost_append_le (leastCost_cons_le x back) front c
  | substitute front x y back =>
    exact leastCost_append_le (leastCost_substitute_le x y back) front c

theorem Edits.leastCost_le (h : Edits n a b) : leastCost a b ≤ n := by
  induction h with
  | none a => rw [leastCost_self]
  | step hedit _ ih => exact (hedit.leastCost_le _).trans (Nat.succ_le_succ ih)

theorem edits_leastCost (a b : List Char) : Edits (leastCost a b) a b := by
  fun_induction leastCost a b with
  | case1 b =>
    induction b with
    | nil => exact .none []
    | cons y b ih => exact ih.trans (.step (.insert [] y b) (.none (y :: b)))
  | case2 x a =>
    induction a generalizing x with
    | nil => exact .step (.delete [] x []) (.none [])
    | cons z a ih => exact .step (.delete [] x (z :: a)) (ih z)
  | case3 x a y b hinsert hdelete hkeep =>
    rcases min_choice (min (leastCost (x :: a) b + 1) (leastCost a (y :: b) + 1))
      (leastCost a b + if x = y then 0 else 1) with h | h <;> rw [h]
    · rcases min_choice (leastCost (x :: a) b + 1) (leastCost a (y :: b) + 1) with h | h <;>
        rw [h]
      · exact hinsert.trans (.step (.insert [] y b) (.none (y :: b)))
      · exact .step (.delete [] x a) hdelete
    · split
      case isTrue hsame => exact hsame ▸ hkeep.cons x
      case isFalse => exact .step (.substitute [] x y a) (hkeep.cons y)

theorem leastCost_triangle (a b c : List Char) : leastCost a c ≤ leastCost a b + leastCost b c :=
  ((edits_leastCost a b).trans (edits_leastCost b c)).leastCost_le

theorem leastCost_eq_zero : leastCost a b = 0 ↔ a = b := by
  refine ⟨fun h => ?_, fun h => h ▸ leastCost_self a⟩
  have hedits := edits_leastCost a b
  rw [h] at hedits
  cases hedits
  rfl

variable (a b)

theorem leastCost_reverse_le : leastCost a.reverse b.reverse ≤ leastCost a b :=
  ((edits_leastCost a b).map fun _ _ => Edit.reverse).leastCost_le

theorem leastCost_reverse : leastCost a.reverse b.reverse = leastCost a b := by
  refine (leastCost_reverse_le a b).antisymm ?_
  simpa using leastCost_reverse_le a.reverse b.reverse

/-! ### The table -/

/-- The distances to a text from those that begin as `p` and grow by one character of a list after
the other. All texts are read backwards, so that they grow at the front. -/
def costsFrom (text : List Char) : List Char → List Char → List Nat
  | _, [] => []
  | p, x :: xs => leastCost (x :: p) text :: costsFrom text (x :: p) xs

theorem nextRowFrom_costsFrom (c : Char) (text p xs : List Char) :
    nextRowFrom c xs (leastCost p (c :: text)) (leastCost p text) (costsFrom text p xs) =
      costsFrom (c :: text) p xs := by
  induction xs generalizing p with
  | nil => rfl
  | cons x xs ih => rw [costsFrom, nextRowFrom, ← leastCost_cons_cons, ih, costsFrom]

theorem foldl_nextRow (a b text : List Char) :
    b.foldl (fun row c => nextRow a c row) (leastCost [] text :: costsFrom text [] a) =
      leastCost [] (b.reverse ++ text) :: costsFrom (b.reverse ++ text) [] a := by
  induction b generalizing text with
  | nil => rfl
  | cons c b ih =>
    have hfirst : leastCost [] text + 1 = leastCost [] (c :: text) := by
      rw [leastCost_nil_left, leastCost_nil_left, length_cons]
    rw [foldl_cons, nextRow, hfirst, nextRowFrom_costsFrom, ih, reverse_cons,
      append_assoc, singleton_append]

theorem costsFrom_nil (p xs : List Char) : costsFrom [] p xs = range' (p.length + 1) xs.length := by
  induction xs generalizing p with
  | nil => rfl
  | cons x xs ih =>
    rw [costsFrom, leastCost_nil_right, ih, length_cons, length_cons, range'_succ]

theorem lastRow_eq :
    lastRow a b = leastCost [] b.reverse :: costsFrom b.reverse [] a := by
  have hfirst : range (a.length + 1) = leastCost [] [] :: costsFrom [] [] a := by
    rw [range_eq_range', range'_succ, costsFrom_nil, leastCost_self, length_nil]
  rw [lastRow, hfirst, foldl_nextRow, append_nil]

theorem getLastD_costsFrom (text p xs : List Char) :
    (leastCost p text :: costsFrom text p xs).getLastD 0 = leastCost (xs.reverse ++ p) text := by
  induction xs generalizing p with
  | nil => rfl
  | cons x xs ih =>
    rw [costsFrom, getLastD_cons, getLastD_cons, ← getLastD_cons (a := 0), ih,
      reverse_cons, append_assoc, singleton_append]

theorem getLastD_lastRow : (lastRow a b).getLastD 0 = leastCost a b := by
  rw [lastRow_eq, getLastD_costsFrom, append_nil, leastCost_reverse]

theorem distance_eq : distance a b = leastCost a b := by
  rw [distance, getLastD_lastRow, getLastD_lastRow, leastCost_comm b a, ite_self]
  split_ifs with hsame ha hb
  · rw [hsame, leastCost_self]
  · rw [ha, leastCost_nil_left]
  · rw [hb, leastCost_nil_right]
  · rfl

/-- The distance is the least number of edits between two texts and satisfies the recursion, so
that it is a metric. -/
theorem editDistance_least (a b : String) :
    IsLeast {n | Edits n a.toList b.toList} (editDistance a b) ∧
      editDistance a b = leastCost a.toList b.toList ∧
      editDistance a b = editDistance b a ∧
      (∀ c, editDistance a c ≤ editDistance a b + editDistance b c) ∧
      (editDistance a b = 0 ↔ a.toList = b.toList) := by
  simp only [editDistance, distance_eq]
  exact ⟨⟨edits_leastCost _ _, fun _ h => h.leastCost_le⟩, trivial, leastCost_comm _ _,
    fun _ => leastCost_triangle _ _ _, leastCost_eq_zero⟩

end Schemata.EditDistance
