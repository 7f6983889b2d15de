import Schemata.Proofs.Normal.SortedNodes

/-!
Ordering by dependency gives the least of all orders in which nothing comes before what it
depends on, where orders are compared position by position from the front. At every step the
search takes the first position that can come next. Another order that agrees so far goes on
with a position whose dependencies are placed too, so with one that is not smaller.

A list in order is therefore left alone, and so is a list that was ordered once. Ordering can
change which node is the first of its name, but only to one that stands earlier.
-/

namespace Schemata.Normal

open List

variable {deps : List (List Nat)} {placed left : List Nat}

variable {order : List Nat} {nodes : List Node}

/-! ### The least order -/

/-- Positions that can be placed one after the other behind those that are placed. -/
def GoesOn (deps : List (List Nat)) (placed rest : List Nat) : Prop :=
  ∀ before x after, rest = before ++ x :: after →
    ∀ j, Needs deps x j → j ∈ placed ∨ j ∈ before

theorem GoesOn.tail {x : Nat} {rest : List Nat} (h : GoesOn deps placed (x :: rest)) :
    GoesOn deps (x :: placed) rest := by
  rintro before y after rfl j hj
  rcases h (x :: before) y after rfl j hj with hplaced | hbefore
  · exact .inl (mem_cons_of_mem x hplaced)
  · rcases mem_cons.mp hbefore with rfl | hbefore
    · exact .inl mem_cons_self
    · exact .inr hbefore

/-- The search finds the smallest of the positions that can come next. -/
theorem nextReady?_le {i x : Nat} (hleft : left.Pairwise (· < ·))
    (hi : nextReady? deps placed left = some i) (hx : x ∈ left)
    (hready : ∀ j, Needs deps x j → j ∈ placed) : i ≤ x := by
  obtain ⟨-, before, after, rfl, hbefore⟩ := find?_eq_some_iff_append.mp hi
  obtain ⟨-, hafter, -⟩ := pairwise_append.mp hleft
  rcases mem_append.mp hx with hx | hx
  · -- one that stands before it was passed over
    have hnot := hbefore x hx
    simp only [Bool.not_eq_true', all_eq_false] at hnot
    obtain ⟨j, hj, hmissing⟩ := hnot
    exact absurd (contains_iff_mem.mpr (hready j hj)) hmissing
  · rcases mem_cons.mp hx with rfl | hx
    · exact le_rfl
    · exact ((pairwise_cons.mp hafter).1 x hx).le

/-- What the search places goes on in the least way there is. -/
theorem placeAll_least {steps : Nat} (hleft : left.Pairwise (· < ·)) (hsteps : left.length = steps)
    (h : placeAll deps steps placed left = some order) :
    ∃ tail, order = placed.reverse ++ tail ∧
      ∀ rest, rest.Perm left → GoesOn deps placed rest → tail ≤ rest := by
  induction steps generalizing placed left with
  | zero =>
    obtain rfl := Option.some.inj h
    refine ⟨[], (append_nil _).symm, ?_⟩
    intro rest hperm _
    rw [length_eq_zero_iff.mp hsteps] at hperm
    rw [hperm.eq_nil]
  | succ steps ih =>
    rw [placeAll] at h
    split at h
    · cases h
    next i hi =>
      have hlength := length_erase_of_ready hi
      obtain ⟨tail, rfl, hleast⟩ := ih (hleft.sublist erase_sublist) (by omega) h
      refine ⟨i :: tail, by simp, ?_⟩
      intro rest hperm hgoes
      cases rest with
      | nil =>
        have hempty := hperm.length_eq
        rw [length_nil] at hempty
        omega
      | cons x rest =>
        have hx : x ∈ left := hperm.mem_iff.mp mem_cons_self
        have hready : ∀ j, Needs deps x j → j ∈ placed := by
          intro j hj
          exact (hgoes [] x rest rfl j hj).resolve_right not_mem_nil
        rcases (nextReady?_le hleft hi hx hready).lt_or_eq with hlt | rfl
        · exact le_of_lt (Lex.rel hlt)
        · have hrest : rest.Perm (left.erase i) :=
            (cons_perm_iff_perm_erase.mp hperm).2
          exact cons_le_cons i (hleast rest hrest hgoes.tail)

theorem InDependencyOrder.goesOn (h : InDependencyOrder nodes order) :
    GoesOn ((range nodes.length).map (dependencies nodes)) [] order := by
  rintro before x after rfl j hj
  have hlt := h.later x j (needs_dependencies.mp hj)
  right
  by_contra hnot
  rw [idxOf_append_of_notMem hnot] at hlt
  have hx : (before ++ x :: after).idxOf x ≤ before.length := by
    by_cases hmem : x ∈ before
    · rw [idxOf_append_of_mem hmem]
      exact (idxOf_lt_length_of_mem hmem).le
    · rw [idxOf_append_of_notMem hmem, idxOf_cons_self]
      rfl
  omega

theorem placement?_le {other : List Nat} (h : placement? nodes = some order)
    (hother : InDependencyOrder nodes other) : order ≤ other := by
  rw [placement?_eq_placeAll] at h
  obtain ⟨tail, rfl, hleast⟩ := placeAll_least pairwise_lt_range length_range h
  exact hleast other hother.perm hother.goesOn

/-! ### Lists in order -/

/-- A list in increasing order is the least of its permutations. -/
theorem le_of_perm_of_increasing {l other : List Nat} (h : l.Pairwise (· < ·))
    (hperm : other.Perm l) : l ≤ other := by
  induction l generalizing other with
  | nil => rw [hperm.eq_nil]
  | cons a l ih =>
    obtain ⟨hfirst, hrest⟩ := pairwise_cons.mp h
    cases other with
    | nil => exact absurd hperm.symm.eq_nil (cons_ne_nil a l)
    | cons b other =>
      rcases mem_cons.mp (hperm.mem_iff.mp mem_cons_self) with rfl | hb
      · exact cons_le_cons b (ih hrest hperm.cons_inv)
      · exact le_of_lt (Lex.rel (hfirst b hb))

/-- A list of nodes where each stands behind those it depends on. -/
def IsOrdered (nodes : List Node) : Prop := ∀ i j, DependsOn nodes i j → j < i

theorem IsOrdered.inDependencyOrder (h : IsOrdered nodes) :
    InDependencyOrder nodes (range nodes.length) := by
  refine ⟨.refl _, ?_⟩
  intro i j hij
  obtain ⟨hi, hj⟩ := hij.lt_length
  have hidx (k : Nat) (hk : k < nodes.length) : (range nodes.length).idxOf k = k := by
    have hat := nodup_range.idxOf_getElem k (by simpa using hk)
    rwa [getElem_range] at hat
  rw [hidx i hi, hidx j hj]
  exact h i j hij

theorem IsOrdered.inOrder?_eq (h : IsOrdered nodes) : inOrder? nodes = some nodes := by
  have hkept := h.inDependencyOrder
  obtain ⟨order, horder⟩ := Option.isSome_iff_exists.mp (placement?_isSome hkept.acyclic)
  have hperm := (placement?_inDependencyOrder horder).perm
  have heq : order = range nodes.length :=
    le_antisymm (placement?_le horder hkept)
      (le_of_perm_of_increasing pairwise_lt_range hperm)
  rw [inOrder?, horder, Option.map_some, heq, filterMap_range_getElem?]

/-! ### Ordering twice -/

theorem IsFirst.le_of_getElem? {name : String} {j k : Nat} {n : Node} (h : IsFirst nodes name j)
    (hk : nodes[k]? = some n) (hname : n.name = name) : j ≤ k := by
  by_contra hlt
  exact h.2 k (by omega) n hk hname

theorem exists_isFirst {name : String} {n : Node} (hn : n ∈ nodes) (hname : n.name = name) :
    ∃ j, IsFirst nodes name j := by
  have hsome : (nodes.findIdx? (·.name == name)).isSome = true := by
    rw [findIdx?_isSome, any_eq_true]
    exact ⟨n, hn, beq_iff_eq.mpr hname⟩
  obtain ⟨j, hj⟩ := Option.isSome_iff_exists.mp hsome
  exact ⟨j, findIdx?_name_iff.mp hj⟩

/-- Nodes put in order stand in order by their new positions. The first node of a name may be
another than before, but it stands no later. -/
theorem InDependencyOrder.isOrdered {out : List Node} (h : InDependencyOrder nodes order)
    (hout : out.map some = order.map (nodes[·]?)) : IsOrdered out := by
  rintro p q ⟨a, ha, name, hname, hfirst, hne⟩
  obtain ⟨b, hb, hbname⟩ := hfirst.1
  obtain ⟨i, hi, hia⟩ := (getElem?_eq_some_iff_order hout).mp ha
  obtain ⟨k, -, hkb⟩ := (getElem?_eq_some_iff_order hout).mp hb
  obtain ⟨j, hj⟩ := exists_isFirst (mem_of_getElem? hkb) hbname
  obtain ⟨c, hc, hcname⟩ := hj.1
  have hnodup : order.Nodup := h.perm.nodup_iff.mpr nodup_range
  by_cases hji : j = i
  · -- the node has the name itself
    subst hji
    have hca : c = a := Option.some.inj (hc.symm.trans hia)
    have hle := hfirst.le_of_getElem? ha (hca ▸ hcname)
    omega
  · have hlt := h.later i j ⟨a, hia, name, hname, hj, hji⟩
    have hidx : order.idxOf i = p := by
      obtain ⟨hlength, rfl⟩ := List.getElem?_eq_some_iff.mp hi
      exact hnodup.idxOf_getElem _ hlength
    have hmem : j ∈ order := h.perm.mem_iff.mpr
      (mem_range.mpr (List.getElem?_eq_some_iff.mp hc).1)
    have hat := (getElem?_eq_some_iff_order hout).mpr ⟨j, getElem?_idxOf hmem, hc⟩
    have hle := hfirst.le_of_getElem? hat hcname
    omega

/-- Without a cycle, the positions are given in the least of all orders that put nothing before
what it depends on. So nodes in order stay as they are, and nodes that were ordered once too,
whichever node is then the first of its name. -/
theorem inOrder_least (nodes : List Node) (hacyclic : Acyclic nodes) :
    (∃ order, placement? nodes = some order ∧
        inOrder? nodes = some (order.filterMap (nodes[·]?)) ∧ InDependencyOrder nodes order ∧
        ∀ other, InDependencyOrder nodes other → order ≤ other) ∧
      (IsOrdered nodes → inOrder? nodes = some nodes) ∧
      inOrder? (inOrder nodes) = some (inOrder nodes) := by
  obtain ⟨order, horder⟩ := Option.isSome_iff_exists.mp (placement?_isSome hacyclic)
  have hsorted := placement?_inDependencyOrder horder
  have hnodes : inOrder? nodes = some (order.filterMap (nodes[·]?)) := by
    rw [inOrder?, horder, Option.map_some]
  refine ⟨⟨order, horder, hnodes, hsorted, fun other => placement?_le horder⟩,
    IsOrdered.inOrder?_eq, ?_⟩
  have hplaces := map_some_filterMap_getElem? fun i hi =>
    List.mem_range.mp (hsorted.perm.mem_iff.mp hi)
  rw [inOrder, hnodes, Option.getD_some]
  exact (hsorted.isOrdered hplaces).inOrder?_eq

/-- Two lines, of which an order holds the first. That one waits for the price. -/
def repeatedLine : List Node :=
  [.struct { name := "Line", members := [.field { name := "price", type := .ref "Price" }] },
    .struct { name := "Line" },
    .struct { name := "Price" },
    .struct { name := "Order", members := [.field { name := "line", type := .ref "Line" }] }]

theorem repeatedLine_least :
    Acyclic repeatedLine ∧ placement? repeatedLine = some [1, 2, 0, 3] ∧
      (∀ other, InDependencyOrder repeatedLine other → [1, 2, 0, 3] ≤ other) ∧
      inOrder? (inOrder repeatedLine) = some (inOrder repeatedLine) := by
  have horder : placement? repeatedLine = some [1, 2, 0, 3] := by decide
  have hacyclic := (placement?_inDependencyOrder horder).acyclic
  obtain ⟨⟨order, hplaced, -, -, hleast⟩, -, htwice⟩ := inOrder_least repeatedLine hacyclic
  obtain rfl : order = [1, 2, 0, 3] := Option.some.inj (hplaced.symm.trans horder)
  exact ⟨hacyclic, horder, hleast, htwice⟩

end Schemata.Normal
