import Schemata.Proofs.Normal.DependencyOrder

/-!
What ordering by dependency says about the list it gives: every node stands behind what the names
it holds by value stand for. A name stands for the first node of that name in the list that was
ordered.
-/

namespace Schemata.Normal

open List

variable {nodes out : List Node}

/-- No node of a list uses a name before what the name stands for, itself apart. -/
def UsesEarlier (uses : Node → List String) (resolve : String → Option Node)
    (nodes : List Node) : Prop :=
  ∀ before d after, nodes = before ++ d :: after →
    ∀ name ∈ uses d, ∀ e, resolve name = some e → e ≠ d → e ∈ before

theorem UsesEarlier.mono {uses uses' : Node → List String} {resolve : String → Option Node}
    (h : UsesEarlier uses resolve nodes) (hsub : ∀ d, uses' d ⊆ uses d) :
    UsesEarlier uses' resolve nodes := by
  intro before d after hsplit name hname
  exact h before d after hsplit name (hsub d hname)

/-- Leaving out nodes, and names that stand for them, does not matter. -/
theorem UsesEarlier.filter {uses : Node → List String} {resolve : String → Option Node}
    (h : UsesEarlier uses resolve nodes) (p : Node → Bool) :
    UsesEarlier uses (fun name => (resolve name).filter p) (nodes.filter p) := by
  intro before d after hsplit name hname e he hne
  obtain ⟨he, hp⟩ := Option.filter_eq_some_iff.mp he
  obtain ⟨front, back, rfl, hfront, hback⟩ := filter_eq_append_iff.mp hsplit
  obtain ⟨gap, rest, rfl, hgap, -, -⟩ := filter_eq_cons_iff.mp hback
  rw [← append_assoc] at h
  have hmem := h (front ++ gap) d rest rfl name hname e he hne
  rcases mem_append.mp hmem with hmem | hmem
  · rw [← hfront]
    exact mem_filter.mpr ⟨hmem, hp⟩
  · exact absurd hp (hgap e hmem)

/-- The first node of a name in a list. -/
def named (nodes : List Node) (name : String) : Option Node := nodes.find? (·.name == name)

/-! ### Ordering -/

theorem inOrder?_perm (h : inOrder? nodes = some out) : out.Perm nodes := by
  obtain ⟨order, horder, rfl⟩ := inOrder?_eq_some.mp h
  have hperm := (placement?_inDependencyOrder horder).perm.filterMap (nodes[·]?)
  rwa [filterMap_range_getElem?] at hperm

theorem inOrder_perm (nodes : List Node) : (inOrder nodes).Perm nodes := by
  rw [inOrder]
  cases h : inOrder? nodes with
  | none => exact .refl nodes
  | some out => exact inOrder?_perm h

/-- What stands where in the new list, by the positions of the old one. -/
theorem getElem?_eq_some_iff_order {order : List Nat} (hout : out.map some = order.map (nodes[·]?))
    {p : Nat} {n : Node} : out[p]? = some n ↔ ∃ i, order[p]? = some i ∧ nodes[i]? = some n := by
  have hat := congrArg (·[p]?) hout
  simp only [getElem?_map] at hat
  cases hp : order[p]? with
  | none =>
    rw [hp, Option.map_none, Option.map_eq_none_iff] at hat
    simp [hat]
  | some i =>
    rw [hp, Option.map_some] at hat
    cases hn : out[p]? with
    | none => simp [hn] at hat
    | some x =>
      rw [hn, Option.map_some, Option.some.injEq] at hat
      simp [← hat]

theorem named_eq_some {name : String} {e : Node} (h : named nodes name = some e) :
    ∃ j, nodes[j]? = some e ∧ IsFirst nodes name j := by
  obtain ⟨hname, front, back, rfl, hfront⟩ := find?_eq_some_iff_append.mp h
  have hat : (front ++ e :: back)[front.length]? = some e := by simp
  refine ⟨front.length, hat, ⟨e, hat, by simpa using hname⟩, ?_⟩
  intro k hk c hc
  rw [getElem?_append_left hk] at hc
  simpa using hfront c (mem_of_getElem? hc)

theorem InDependencyOrder.usesEarlier {order : List Nat} (h : InDependencyOrder nodes order)
    (hout : out.map some = order.map (nodes[·]?)) : UsesEarlier valueRefs (named nodes) out := by
  rintro before d after rfl name hname e he hne
  have hnodup : order.Nodup := h.perm.nodup_iff.mpr nodup_range
  -- where this node was, and where the one it depends on was
  have hhere : (before ++ d :: after)[before.length]? = some d := by simp
  obtain ⟨i, hi, hd⟩ := (getElem?_eq_some_iff_order hout).mp hhere
  obtain ⟨j, hj, hfirst⟩ := named_eq_some he
  have hidx : order.idxOf i = before.length := by
    obtain ⟨hlength, rfl⟩ := List.getElem?_eq_some_iff.mp hi
    exact hnodup.idxOf_getElem _ hlength
  have hother : j ≠ i := by
    rintro rfl
    rw [hj, Option.some.injEq] at hd
    exact hne hd
  have hlt := h.later i j ⟨d, hd, name, hname, hfirst, hother⟩
  rw [hidx] at hlt
  have hmem : j ∈ order :=
    idxOf_lt_length_iff.mp (hlt.trans (List.getElem?_eq_some_iff.mp hi).1)
  have hat := (getElem?_eq_some_iff_order hout).mpr ⟨j, getElem?_idxOf hmem, hj⟩
  rw [getElem?_append_left hlt] at hat
  exact mem_of_getElem? hat

/-- Without a cycle, nodes in order use only what stands before them. -/
theorem usesEarlier_inOrder (h : inOrder? nodes ≠ none) :
    UsesEarlier valueRefs (named nodes) (inOrder nodes) := by
  obtain ⟨out, hout⟩ := Option.ne_none_iff_exists'.mp h
  obtain ⟨order, horder, hfilter⟩ := inOrder?_eq_some.mp hout
  have hsorted := placement?_inDependencyOrder horder
  have hplaces : out.map some = order.map (nodes[·]?) := by
    rw [← hfilter]
    exact map_some_filterMap_getElem? fun i hi => mem_range.mp (hsorted.perm.mem_iff.mp hi)
  rw [inOrder, hout]
  exact hsorted.usesEarlier hplaces

/-- A list left as it was because of a cycle cannot be ordered the second time either. -/
theorem inOrder?_ne_none_of_inOrder (h : inOrder? (inOrder nodes) ≠ none) :
    inOrder? nodes ≠ none := by
  intro hnone
  rw [inOrder, hnone] at h
  exact h hnone

end Schemata.Normal
