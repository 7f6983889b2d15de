import Mathlib
import Schemata.Normal.Order

/-!
Placing positions one after another. The queue counts for every position the dependencies that
are not placed, and keeps the positions that wait for none in increasing order. What it places
is what a search through all the positions left would find each time: the first whose
dependencies are all placed. The order of positions is studied on that search.
-/

namespace Schemata.Normal

open List

variable {i : Nat}

/-! ### Placing by search -/

/-- Of the positions left, the first whose dependencies are all placed. -/
def nextReady? (deps : List (List Nat)) (placed left : List Nat) : Option Nat :=
  left.find? fun i => (deps.getD i []).all placed.contains

/-- Places up to `steps` more positions; `none` when none of those left can come next. -/
def placeAll (deps : List (List Nat)) : (steps : Nat) → (placed left : List Nat) → Option (List Nat)
  | 0, placed, _ => some placed.reverse
  | steps + 1, placed, left =>
    match nextReady? deps placed left with
    | none => none
    | some i => placeAll deps steps (i :: placed) (left.erase i)

/-- The position `i` waits for `j`. -/
def Needs (deps : List (List Nat)) (i j : Nat) : Prop := j ∈ deps.getD i []

/-- Each position of a list, the last placed first, has all it needs behind it. -/
def Closed (deps : List (List Nat)) : List Nat → Prop
  | [] => True
  | i :: placed => (∀ j, Needs deps i j → j ∈ placed) ∧ Closed deps placed

/-- How far the placing of `n` positions has come. -/
structure Placing (deps : List (List Nat)) (n : Nat) (placed left : List Nat) : Prop where
  perm : (placed ++ left).Perm (range n)
  closed : Closed deps placed
  increasing : left.Pairwise (· < ·)

variable {deps : List (List Nat)} {n : Nat} {placed left : List Nat}

theorem placing_start (deps : List (List Nat)) (n : Nat) : Placing deps n [] (range n) :=
  ⟨.refl _, trivial, pairwise_lt_range⟩

theorem Closed.mem {j : Nat} (h : Closed deps placed) (hi : i ∈ placed) (hj : Needs deps i j) :
    j ∈ placed := by
  induction placed with
  | nil => cases hi
  | cons x placed ih =>
    obtain ⟨hx, hplaced⟩ := h
    rcases mem_cons.mp hi with rfl | hi
    · exact mem_cons_of_mem _ (hx j hj)
    · exact mem_cons_of_mem _ (ih hplaced hi)

theorem nextReady?_eq_some (h : nextReady? deps placed left = some i) :
    i ∈ left ∧ ∀ j, Needs deps i j → j ∈ placed := by
  refine ⟨mem_of_find?_eq_some h, ?_⟩
  have hall := find?_some h
  simpa [Needs] using hall

theorem length_erase_of_ready (h : nextReady? deps placed left = some i) :
    (left.erase i).length + 1 = left.length := by
  have hmem := (nextReady?_eq_some h).1
  have hpos := length_pos_of_mem hmem
  rw [length_erase_of_mem hmem]
  omega

theorem Placing.place (h : Placing deps n placed left) (hi : nextReady? deps placed left = some i) :
    Placing deps n (i :: placed) (left.erase i) := by
  obtain ⟨hmem, hready⟩ := nextReady?_eq_some hi
  have hmoved : (i :: placed ++ left.erase i).Perm (placed ++ left) :=
    perm_middle.symm.trans ((perm_cons_erase hmem).symm.append_left placed)
  exact ⟨hmoved.trans h.perm, ⟨hready, h.closed⟩, h.increasing.sublist erase_sublist⟩

theorem Placing.notMem (h : Placing deps n placed left) (hi : i ∈ left) : i ∉ placed := by
  have hnodup := h.perm.nodup_iff.mpr nodup_range
  intro hplaced
  exact (nodup_append.mp hnodup).2.2 i hplaced i hi rfl

theorem placeAll_placing {steps : Nat} {order : List Nat} (hsteps : left.length = steps)
    (h : Placing deps n placed left) (horder : placeAll deps steps placed left = some order) :
    Placing deps n order.reverse [] := by
  induction steps generalizing placed left with
  | zero =>
    rw [placeAll] at horder
    cases horder
    rw [length_eq_zero_iff.mp hsteps] at h
    rwa [reverse_reverse]
  | succ steps ih =>
    rw [placeAll] at horder
    split at horder
    · cases horder
    next i hi =>
      have hlength := length_erase_of_ready hi
      exact ih (by omega) (h.place hi) horder

/-! ### Dependencies not placed -/

/-- How many dependencies of a position are not placed. -/
def unmet (deps : List (List Nat)) (placed : List Nat) (i : Nat) : Nat :=
  (deps.getD i []).countP fun j => !placed.contains j

theorem unmet_eq_zero : unmet deps placed i = 0 ↔ ∀ j, Needs deps i j → j ∈ placed := by
  rw [unmet, countP_eq_zero]
  simp [Needs]

/-- Placing a position meets each dependency on it. -/
theorem unmet_cons (hi : i ∉ placed) (j : Nat) :
    unmet deps placed j = unmet deps (i :: placed) j + (deps.getD j []).count i := by
  rw [unmet, unmet]
  induction deps.getD j [] with
  | nil => rfl
  | cons d ds ih =>
    rw [countP_cons, countP_cons, count_cons, ih]
    by_cases hd : d = i
    · simp [hd, hi]
      omega
    · simp [hd]
      omega

theorem count_dependents (deps : List (List Nat)) (i j : Nat) :
    (dependents deps i).count j = (deps.getD j []).count i := by
  have hrange (m : Nat) :
      ((range m).flatMap fun k => replicate ((deps.getD k []).count i) k).count j =
        if j < m then (deps.getD j []).count i else 0 := by
    induction m with
    | zero => rfl
    | succ m ih =>
      rw [range_succ, flatMap_append, count_append, ih, flatMap_singleton, count_replicate]
      by_cases hj : j = m
      · simp [hj]
      · have hlt : j < m + 1 ↔ j < m := by omega
        simp [hlt, Ne.symm hj]
  rw [dependents, hrange]
  split
  · rfl
  · rw [getD_eq_default _ _ (by omega), count_nil]

/-! ### The queue -/

namespace Queue

theorem enqueue_cons (i x : Nat) (ready : List Nat) :
    enqueue i (x :: ready) = if x < i then x :: enqueue i ready else i :: x :: ready := by
  by_cases hx : x < i
  · simp [enqueue, hx]
  · simp [enqueue, hx]

theorem mem_enqueue {x : Nat} {ready : List Nat} : x ∈ enqueue i ready ↔ x = i ∨ x ∈ ready := by
  induction ready with
  | nil => simp [enqueue]
  | cons y ready ih =>
    rw [enqueue_cons]
    split
    · rw [mem_cons, ih, mem_cons, or_left_comm]
    · rw [mem_cons]

theorem pairwise_enqueue {ready : List Nat} (h : ready.Pairwise (· < ·)) (hi : i ∉ ready) :
    (enqueue i ready).Pairwise (· < ·) := by
  induction ready with
  | nil => exact pairwise_singleton _ i
  | cons x ready ih =>
    obtain ⟨hx, hready⟩ := pairwise_cons.mp h
    obtain ⟨hne, hi⟩ := not_or.mp (mem_cons.not.mp hi)
    rw [enqueue_cons]
    split
    next hlt =>
      refine pairwise_cons.mpr ⟨?_, ih hready hi⟩
      intro y hy
      rcases mem_enqueue.mp hy with rfl | hy
      · exact hlt
      · exact hx y hy
    next hle =>
      refine pairwise_cons.mpr ⟨?_, h⟩
      intro y hy
      rcases mem_cons.mp hy with rfl | hy
      · omega
      · have hxy := hx y hy
        omega

/-- The ready positions stand in increasing order and wait for nothing. -/
structure IsOrdered (q : Queue) : Prop where
  increasing : q.ready.Pairwise (· < ·)
  idle : ∀ i ∈ q.ready, q.count i = 0

variable {q : Queue}

theorem count_release (q : Queue) (i j : Nat) :
    (q.release i).count j = q.count j - if j = i then 1 else 0 := by
  rw [count, release, getD_eq_getElem?_getD, getElem?_set]
  by_cases hj : j = i
  · subst hj
    by_cases hlt : j < q.waiting.length
    · simp [hlt]
    · simp [hlt, count]
  · simp [hj, Ne.symm hj, count]

theorem mem_ready_release {x : Nat} (hi : 0 < q.count i) :
    x ∈ (q.release i).ready ↔ x ∈ q.ready ∨ x = i ∧ q.count i = 1 := by
  have hcount : q.count i - 1 = 0 ↔ q.count i = 1 := by omega
  simp only [release, hcount]
  split
  next hone => rw [mem_enqueue, and_iff_left hone, or_comm]
  next hmore => simp [hmore]

theorem IsOrdered.release (h : q.IsOrdered) (hi : 0 < q.count i) : (q.release i).IsOrdered := by
  constructor
  · simp only [Queue.release]
    split
    · refine pairwise_enqueue h.increasing ?_
      intro hmem
      have hidle := h.idle i hmem
      omega
    · exact h.increasing
  · intro x hx
    rw [count_release]
    rcases (mem_ready_release hi).mp hx with hx | ⟨rfl, hone⟩
    · rw [h.idle x hx, Nat.zero_sub]
    · rw [hone, if_pos rfl]

/-- Releasing positions one after another: each counts down as often as it is named, and those
that come down to nothing are ready. -/
theorem IsOrdered.release_all {js : List Nat} (h : q.IsOrdered)
    (hcount : ∀ j, js.count j ≤ q.count j) :
    (js.foldl Queue.release q).IsOrdered ∧
      (∀ j, (js.foldl Queue.release q).count j = q.count j - js.count j) ∧
      ∀ x, x ∈ (js.foldl Queue.release q).ready ↔
        x ∈ q.ready ∨ 0 < q.count x ∧ q.count x = js.count x := by
  induction js generalizing q with
  | nil =>
    refine ⟨h, fun _ => rfl, fun x => ?_⟩
    have hnever : ¬(0 < q.count x ∧ q.count x = 0) := by omega
    rw [foldl_nil, count_nil, or_iff_left hnever]
  | cons i js ih =>
    have hcons (j : Nat) : (i :: js).count j = js.count j + if j = i then 1 else 0 := by
      simp only [count_cons, beq_iff_eq, eq_comm (a := i)]
    simp only [hcons] at hcount
    have hi : 0 < q.count i := by
      have hle := hcount i
      rw [if_pos rfl] at hle
      omega
    have hrest (j : Nat) : js.count j ≤ (q.release i).count j := by
      have hle := hcount j
      rw [count_release]
      omega
    obtain ⟨hordered, hcounts, hready⟩ := ih (h.release hi) hrest
    refine ⟨hordered, ?_, ?_⟩
    · intro j
      rw [foldl_cons, hcounts, count_release, hcons]
      omega
    · intro x
      rw [foldl_cons, hready, mem_ready_release hi, count_release, hcons]
      by_cases hx : x = i
      · subst hx
        have hnot : x ∉ q.ready := by
          intro hmem
          have hidle := h.idle x hmem
          omega
        have hle := hcount x
        simp only [hnot, if_true, true_and, false_or] at hle ⊢
        omega
      · simp [hx]

/-- The queue stands where the search does. -/
structure Follows (deps : List (List Nat)) (placed left : List Nat) (q : Queue) : Prop where
  count : ∀ j, q.count j = unmet deps placed j
  ready : q.ready = left.filter fun i => unmet deps placed i = 0

theorem follows_start (deps : List (List Nat)) :
    (start deps).Follows deps [] (range deps.length) := by
  have hnone (i : Nat) : unmet deps [] i = (deps.getD i []).length := by simp [unmet]
  constructor
  · intro j
    rw [hnone, Queue.count, start]
    exact getD_map deps [] length
  · rw [start]
    refine filter_congr fun i _ => ?_
    rw [Bool.eq_iff_iff, List.isEmpty_iff, decide_eq_true_iff, hnone, length_eq_zero_iff]

theorem Follows.mem_ready (h : q.Follows deps placed left) :
    i ∈ q.ready ↔ i ∈ left ∧ q.count i = 0 := by
  rw [h.ready, mem_filter, h.count, decide_eq_true_iff]

theorem Follows.isOrdered (h : q.Follows deps placed left) (hleft : left.Pairwise (· < ·)) :
    q.IsOrdered := by
  constructor
  · rw [h.ready]
    exact hleft.filter _
  · intro i hi
    exact (h.mem_ready.mp hi).2

theorem Follows.nextReady?_eq (h : q.Follows deps placed left) :
    nextReady? deps placed left = q.ready.head? := by
  rw [nextReady?, h.ready, head?_filter]
  congr 1
  funext i
  rw [Bool.eq_iff_iff, decide_eq_true_iff, unmet_eq_zero]
  simp [Needs]

/-- What waits for something is left. -/
theorem Follows.mem_left (h : q.Follows deps placed left)
    (hplacing : Placing deps deps.length placed left) (hi : 0 < q.count i) : i ∈ left := by
  rw [h.count] at hi
  have hrange : i ∈ range deps.length := by
    rw [mem_range]
    by_contra hlt
    rw [unmet, getD_eq_default _ _ (by omega)] at hi
    exact absurd hi (Nat.lt_irrefl 0)
  refine (mem_append.mp (hplacing.perm.mem_iff.mpr hrange)).resolve_left ?_
  intro hplaced
  have hmet := unmet_eq_zero.mpr fun j => hplacing.closed.mem hplaced
  omega

/-- One step of the queue is one step of the search. -/
theorem Follows.step {rest : List Nat} (h : q.Follows deps placed left)
    (hplacing : Placing deps deps.length placed left) (hready : q.ready = i :: rest) :
    ((dependents deps i).foldl Queue.release { q with ready := rest }).Follows deps (i :: placed)
      (left.erase i) := by
  have hordered := h.isOrdered hplacing.increasing
  obtain ⟨hleft, hidle⟩ := h.mem_ready.mp (hready ▸ mem_cons_self)
  have hnot : i ∉ placed := hplacing.notMem hleft
  have hincreasing := hready ▸ hordered.increasing
  obtain ⟨hfirst, hrest⟩ := pairwise_cons.mp hincreasing
  have hpopped : IsOrdered { q with ready := rest } :=
    ⟨hrest, fun x hx => hordered.idle x (hready ▸ mem_cons_of_mem i hx)⟩
  have hmet (j : Nat) : q.count j = unmet deps (i :: placed) j + (dependents deps i).count j := by
    rw [h.count, unmet_cons hnot, count_dependents]
  have hcovers (j : Nat) : (dependents deps i).count j ≤ Queue.count { q with ready := rest } j :=
    (Nat.le_add_left _ _).trans_eq (hmet j).symm
  obtain ⟨hordered', hcount', hready'⟩ := hpopped.release_all hcovers
  have hcount (j : Nat) :
      ((dependents deps i).foldl Queue.release { q with ready := rest }).count j =
        unmet deps (i :: placed) j := by
    have hj : Queue.count { q with ready := rest } j = q.count j := rfl
    rw [hcount', hj, hmet]
    omega
  refine ⟨hcount, ?_⟩
  -- both sides are in increasing order, so it is enough that they have the same members
  refine hordered'.increasing.eq_of_mem_iff
    ((hplacing.increasing.sublist erase_sublist).filter _) ?_
  intro x
  have hx := hmet x
  have hmem : x ∈ rest ↔ x ≠ i ∧ x ∈ left ∧ q.count x = 0 := by
    rw [← h.mem_ready, hready, mem_cons]
    constructor
    · intro hrest
      exact ⟨(hfirst x hrest).ne', .inr hrest⟩
    · rintro ⟨hne, hor⟩
      exact hor.resolve_left hne
  rw [hready', mem_filter, decide_eq_true_iff, hplacing.increasing.nodup.mem_erase_iff]
  change x ∈ rest ∨ 0 < q.count x ∧ q.count x = _ ↔ _
  rw [hmem]
  constructor
  · rintro (⟨hne, hleft, hzero⟩ | ⟨hpos, heq⟩)
    · exact ⟨⟨hne, hleft⟩, by omega⟩
    · refine ⟨⟨?_, h.mem_left hplacing hpos⟩, by omega⟩
      rintro rfl
      omega
  · rintro ⟨⟨hne, hleft⟩, hzero⟩
    by_cases hcount : q.count x = 0
    · exact .inl ⟨hne, hleft, hcount⟩
    · exact .inr ⟨by omega, by omega⟩

end Queue

/-- The queue places what the search places, and comes to a stop where the search finds
nothing. -/
theorem placeAll_eq_run? {q : Queue} {steps : Nat} (hq : q.Follows deps placed left)
    (h : Placing deps deps.length placed left) (hsteps : left.length = steps) :
    placeAll deps steps placed left = (q.run? deps steps).map (placed.reverse ++ ·) := by
  induction steps generalizing placed left q with
  | zero => simp [placeAll, Queue.run?]
  | succ steps ih =>
    have hnext := hq.nextReady?_eq
    rw [placeAll, Queue.run?]
    cases hready : q.ready with
    | nil =>
      rw [hready, head?_nil] at hnext
      simp [hnext]
    | cons i rest =>
      rw [hready, head?_cons] at hnext
      have hlength := length_erase_of_ready hnext
      have hrest := ih (hq.step h hready) (h.place hnext) (by omega)
      simp [hnext, hrest, Function.comp_def]

theorem placement?_eq_placeAll (nodes : List Node) :
    placement? nodes = placeAll ((range nodes.length).map (dependencies nodes))
      nodes.length [] (range nodes.length) := by
  have hlength : ((range nodes.length).map (dependencies nodes)).length = nodes.length := by
    simp
  have hstart := Queue.follows_start ((range nodes.length).map (dependencies nodes))
  rw [hlength] at hstart
  rw [placeAll_eq_run? hstart (by rw [hlength]; exact placing_start _ _) length_range, placement?]
  simp

end Schemata.Normal
