import Schemata.Proofs.Normal.ReadyQueue

/-!
Ordering by dependency is a topological sort. It succeeds exactly when no node depends on
itself through others; then every node is placed once, behind all the nodes it depends on.
The argument is about positions: what has been placed is closed under dependencies, and as
long as there is no cycle some position that is left has all of its dependencies placed.
-/

namespace Schemata.Normal

open List

variable {nodes : List Node} {j i : Nat} {order : List Nat}

/-! ### Dependencies -/

/-- The node at `j` is the first of its name. -/
def IsFirst (nodes : List Node) (name : String) (j : Nat) : Prop :=
  (∃ b, nodes[j]? = some b ∧ b.name = name) ∧
    ∀ k < j, ∀ c, nodes[k]? = some c → c.name ≠ name

/-- The node at `i` holds by value a name whose first node is another one, at `j`. -/
def DependsOn (nodes : List Node) (i j : Nat) : Prop :=
  ∃ a, nodes[i]? = some a ∧ ∃ name ∈ valueRefs a, IsFirst nodes name j ∧ j ≠ i

def Acyclic (nodes : List Node) : Prop := ∀ i, ¬Relation.TransGen (DependsOn nodes) i i

theorem findIdx?_name_iff {name : String} :
    nodes.findIdx? (·.name == name) = some j ↔ IsFirst nodes name j := by
  rw [findIdx?_eq_some_iff_getElem]
  constructor
  · rintro ⟨hj, hname, hbefore⟩
    refine ⟨⟨nodes[j], getElem?_eq_getElem hj, beq_iff_eq.mp hname⟩, ?_⟩
    intro k hk c hc
    obtain ⟨hlt, rfl⟩ := List.getElem?_eq_some_iff.mp hc
    simpa using hbefore k hk
  · rintro ⟨⟨b, hb, hname⟩, hbefore⟩
    obtain ⟨hj, rfl⟩ := List.getElem?_eq_some_iff.mp hb
    refine ⟨hj, beq_iff_eq.mpr hname, ?_⟩
    intro k hk
    simpa using hbefore k hk _ (getElem?_eq_getElem (hk.trans hj))

theorem mem_dependencies : j ∈ dependencies nodes i ↔ DependsOn nodes i j := by
  unfold dependencies DependsOn
  cases hi : nodes[i]? with
  | none => simp
  | some a =>
    simp only [mem_filterMap, Option.bind_eq_some_iff, findIdx?_name_iff,
      Option.some.injEq, exists_eq_left']
    refine exists_congr fun name => and_congr_right fun _ => ?_
    constructor
    · rintro ⟨k, hfirst, hk⟩
      split at hk
      · cases hk
      next hne =>
        cases hk
        exact ⟨hfirst, hne⟩
    · rintro ⟨hfirst, hne⟩
      exact ⟨j, hfirst, if_neg hne⟩

theorem DependsOn.lt_length (h : DependsOn nodes i j) : i < nodes.length ∧ j < nodes.length := by
  obtain ⟨a, ha, name, -, ⟨⟨b, hb, -⟩, -⟩, -⟩ := h
  exact ⟨(List.getElem?_eq_some_iff.mp ha).1, (List.getElem?_eq_some_iff.mp hb).1⟩

/-! ### Placing positions -/

variable {deps : List (List Nat)} {n : Nat} {placed left : List Nat}

/-- Of the positions left one needs none of the others, unless there is a cycle. -/
theorem exists_independent (hacyclic : ∀ i, ¬Relation.TransGen (Needs deps) i i)
    (hleft : left ≠ []) : ∃ i ∈ left, ∀ j ∈ left, ¬Needs deps i j := by
  -- on the finitely many positions left, being needed is well founded
  let needed (a b : { i // i ∈ left }) : Prop := Relation.TransGen (Needs deps) b.1 a.1
  have htrans : IsTrans _ needed := ⟨fun _ _ _ hab hbc => hbc.trans hab⟩
  have hirrefl : Std.Irrefl needed := ⟨fun a => hacyclic a.1⟩
  have hwf : WellFounded needed := Finite.wellFounded_of_trans_of_irrefl needed
  obtain ⟨x, hx⟩ := exists_mem_of_ne_nil left hleft
  obtain ⟨i, -, hmin⟩ := hwf.has_min Set.univ ⟨⟨x, hx⟩, trivial⟩
  refine ⟨i.1, i.2, ?_⟩
  intro j hj hneeds
  exact hmin ⟨j, hj⟩ trivial (.single hneeds)

section

variable (hbound : ∀ i j, Needs deps i j → j < n)
  (hacyclic : ∀ i, ¬Relation.TransGen (Needs deps) i i)

include hbound hacyclic

/-- Placing does not get stuck. -/
theorem Placing.nextReady?_ne_none (h : Placing deps n placed left) (hleft : left ≠ []) :
    nextReady? deps placed left ≠ none := by
  obtain ⟨i, hi, hmin⟩ := exists_independent hacyclic hleft
  have hready : ∀ j, Needs deps i j → j ∈ placed := by
    intro j hj
    have hmem : j ∈ placed ++ left := h.perm.mem_iff.mpr (mem_range.mpr (hbound i j hj))
    rcases mem_append.mp hmem with hplaced | hother
    · exact hplaced
    · exact absurd hj (hmin j hother)
  intro hnone
  have hstuck := find?_eq_none.mp hnone i hi
  apply hstuck
  simpa [Needs] using hready

theorem placeAll_isSome {steps : Nat} (hsteps : left.length = steps)
    (h : Placing deps n placed left) : (placeAll deps steps placed left).isSome = true := by
  induction steps generalizing placed left with
  | zero => rfl
  | succ steps ih =>
    have hleft : left ≠ [] := ne_nil_of_length_eq_add_one hsteps
    rw [placeAll]
    split
    next hnone => exact absurd hnone (h.nextReady?_ne_none hbound hacyclic hleft)
    next i hi =>
      have hlength := length_erase_of_ready hi
      exact ih (by omega) (h.place hi)

end

/-! ### Positions in order -/

theorem Closed.idxOf_lt (h : Closed deps placed) (hnodup : placed.Nodup) (hi : i ∈ placed)
    (hj : Needs deps i j) : placed.reverse.idxOf j < placed.reverse.idxOf i := by
  induction placed with
  | nil => cases hi
  | cons x placed ih =>
    obtain ⟨hx, hplaced⟩ := h
    obtain ⟨hnotMem, hnodup⟩ := nodup_cons.mp hnodup
    rw [reverse_cons]
    rcases mem_cons.mp hi with rfl | hi
    · -- the position placed last comes after everything placed before
      have hj' : j ∈ placed.reverse := mem_reverse.mpr (hx j hj)
      rw [idxOf_append_of_mem hj', idxOf_append_of_notMem (by simpa using hnotMem)]
      have hlt := idxOf_lt_length_of_mem hj'
      omega
    · have hj' : j ∈ placed.reverse := mem_reverse.mpr (hplaced.mem hi hj)
      rw [idxOf_append_of_mem hj', idxOf_append_of_mem (mem_reverse.mpr hi)]
      exact ih hplaced hnodup hi

/-- Positions in an order in which nothing comes before what it depends on. -/
structure InDependencyOrder (nodes : List Node) (order : List Nat) : Prop where
  perm : order.Perm (range nodes.length)
  later : ∀ i j, DependsOn nodes i j → order.idxOf j < order.idxOf i

theorem needs_dependencies :
    Needs ((range nodes.length).map (dependencies nodes)) i j ↔ DependsOn nodes i j := by
  rw [Needs, getD_eq_getElem?_getD, getElem?_map]
  by_cases hi : i < nodes.length
  · rw [getElem?_range hi]
    exact mem_dependencies
  · rw [getElem?_eq_none (by simpa using hi)]
    constructor
    · intro h
      cases h
    · intro h
      exact absurd h.lt_length.1 hi

theorem placement?_inDependencyOrder (h : placement? nodes = some order) :
    InDependencyOrder nodes order := by
  rw [placement?_eq_placeAll] at h
  have hplaced := placeAll_placing length_range (placing_start _ _) h
  have hperm : order.Perm (range nodes.length) := by
    have hreverse := hplaced.perm
    rw [append_nil] at hreverse
    exact (reverse_perm order).symm.trans hreverse
  refine ⟨hperm, ?_⟩
  intro i j hij
  have hnodup : order.reverse.Nodup :=
    nodup_reverse.mpr (hperm.nodup_iff.mpr nodup_range)
  have hi : i ∈ order.reverse :=
    mem_reverse.mpr (hperm.mem_iff.mpr (mem_range.mpr hij.lt_length.1))
  have hlt := hplaced.closed.idxOf_lt hnodup hi (needs_dependencies.mpr hij)
  rwa [reverse_reverse] at hlt

theorem InDependencyOrder.acyclic (h : InDependencyOrder nodes order) : Acyclic nodes := by
  have hlater : ∀ i j, Relation.TransGen (DependsOn nodes) i j →
      order.idxOf j < order.idxOf i := by
    intro i j hij
    induction hij with
    | single hstep => exact h.later _ _ hstep
    | tail _ hstep ih => exact (h.later _ _ hstep).trans ih
  intro i hcycle
  exact lt_irrefl _ (hlater i i hcycle)

theorem placement?_isSome (h : Acyclic nodes) : (placement? nodes).isSome = true := by
  have hneeds : Needs ((range nodes.length).map (dependencies nodes)) = DependsOn nodes := by
    funext i j
    exact propext needs_dependencies
  rw [placement?_eq_placeAll]
  refine placeAll_isSome ?_ ?_ length_range (placing_start _ _)
  · intro i j hij
    exact (needs_dependencies.mp hij).lt_length.2
  · rw [hneeds]
    exact h

/-! ### Nodes in order -/

/-- The nodes at positions of a list stand there in the order of the positions. -/
theorem map_some_filterMap_getElem? (hbound : ∀ i ∈ order, i < nodes.length) :
    (order.filterMap (nodes[·]?)).map some = order.map (nodes[·]?) := by
  induction order with
  | nil => rfl
  | cons i order ih =>
    have hlt : i < nodes.length := hbound i mem_cons_self
    have hi : nodes[i]? = some nodes[i] := getElem?_eq_getElem hlt
    have hrest := ih fun j hj => hbound j (mem_cons_of_mem _ hj)
    rw [filterMap_cons_some hi, map_cons, map_cons, hrest, hi]

theorem filterMap_range_getElem? (nodes : List Node) :
    (range nodes.length).filterMap (nodes[·]?) = nodes := by
  apply map_injective_iff.mpr (Option.some_injective Node)
  rw [map_some_filterMap_getElem? fun i hi => mem_range.mp hi]
  apply ext_getElem?
  intro i
  by_cases hi : i < nodes.length
  · simp [hi]
  · simp [hi]

theorem inOrder?_eq_some {out : List Node} :
    inOrder? nodes = some out ↔
      ∃ order, placement? nodes = some order ∧ order.filterMap (nodes[·]?) = out := by
  rw [inOrder?, Option.map_eq_some_iff]

/-- Ordering by dependency succeeds exactly when there is no cycle. It then gives the same
nodes, each behind all it depends on; with a cycle it leaves them as they are. -/
theorem inOrder_topological (nodes : List Node) :
    ((inOrder? nodes).isSome = true ↔ Acyclic nodes) ∧
    (∀ out, inOrder? nodes = some out →
      inOrder nodes = out ∧ out.Perm nodes ∧
        ∃ order, InDependencyOrder nodes order ∧ out.map some = order.map (nodes[·]?)) ∧
    (inOrder? nodes = none → inOrder nodes = nodes) := by
  refine ⟨?_, ?_, ?_⟩
  · rw [inOrder?, Option.isSome_map]
    constructor
    · intro h
      obtain ⟨order, horder⟩ := Option.isSome_iff_exists.mp h
      exact (placement?_inDependencyOrder horder).acyclic
    · exact placement?_isSome
  · intro out hout
    obtain ⟨order, horder, rfl⟩ := inOrder?_eq_some.mp hout
    have hsorted := placement?_inDependencyOrder horder
    refine ⟨?_, ?_, order, hsorted, ?_⟩
    · rw [inOrder, hout, Option.getD_some]
    · have hperm := hsorted.perm.filterMap (nodes[·]?)
      rwa [filterMap_range_getElem?] at hperm
    · exact map_some_filterMap_getElem? fun i hi =>
        List.mem_range.mp (hsorted.perm.mem_iff.mp hi)
  · intro hnone
    rw [inOrder, hnone, Option.getD_none]

end Schemata.Normal
