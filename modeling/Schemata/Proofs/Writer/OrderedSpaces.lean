import Schemata.Proofs.Normal.BackwardReferences
import Schemata.Proofs.Normal.SortedNodes
import Schemata.Writer.Cpp

/-!
Ordering through namespaces. A list of nodes is put in order after the lists in its namespaces
are, so every list of nodes of a module comes out ordered, and nothing is lost or added at any
depth. When no list is reported for a cycle each could be ordered.
-/

namespace Schemata

open List

variable {nodes list : List Node}

namespace Normal

theorem mem_innerLists :
    list ∈ innerLists nodes ↔ ∃ name inner, .space name inner ∈ nodes ∧ list ∈ nodeLists inner := by
  induction nodes with
  | nil => simp [innerLists]
  | cons d rest ih =>
    cases d with
    | space name inner =>
      have hlists : innerLists (.space name inner :: rest) =
          nodeLists inner ++ innerLists rest := by rw [innerLists, nodeLists, cons_append]
      rw [hlists, mem_append, ih]
      constructor
      · rintro (hlist | ⟨name', inner', hmem, hlist⟩)
        · exact ⟨name, inner, mem_cons_self, hlist⟩
        · exact ⟨name', inner', mem_cons_of_mem _ hmem, hlist⟩
      · rintro ⟨name', inner', hmem, hlist⟩
        rcases mem_cons.mp hmem with heq | hmem
        · cases heq
          exact .inl hlist
        · exact .inr ⟨name', inner', hmem, hlist⟩
    | _ => simp [innerLists, ih]

theorem mem_innerLists_inOrder : list ∈ innerLists (inOrder nodes) ↔ list ∈ innerLists nodes := by
  simp only [mem_innerLists, (inOrder_perm nodes).mem_iff]

end Normal

namespace Writer.Cpp

open Schemata.Normal

def settle : Node → Node
  | .space name inner => .space name (ordered inner)
  | d => d

theorem orderedInside_eq_map (nodes : List Node) : orderedInside nodes = nodes.map settle := by
  induction nodes with
  | nil => rw [orderedInside, map_nil]
  | cons d rest ih => cases d <;> simp [orderedInside, settle, ordered, ih]

theorem ordered_perm (nodes : List Node) : (ordered nodes).Perm (nodes.map settle) := by
  rw [ordered, orderedInside_eq_map]
  exact inOrder_perm _

@[simp] theorem settle_name (d : Node) : (settle d).name = d.name := by
  cases d <;> rfl

/-! ### Nothing is lost -/

/-- What is gathered from all nodes and from those of their namespaces stays the same. -/
theorem flatMap_orderedInside {α : Type} {gather : Node → List α}
    (hspace : ∀ name inner, gather (.space name inner) = inner.flatMap gather)
    (nodes : List Node) : ((orderedInside nodes).flatMap gather).Perm (nodes.flatMap gather) := by
  induction nodes using nodesInduction with
  | nil => rw [orderedInside]
  | cons d rest hinner hrest =>
    cases d with
    | space name inner =>
      have hsorted := (inOrder_perm (orderedInside inner)).flatMap_right gather
      rw [orderedInside, flatMap_cons, flatMap_cons, hspace, hspace]
      exact (hsorted.trans (hinner name inner rfl)).append hrest
    | _ =>
      simp only [orderedInside, flatMap_cons]
      exact hrest.append_left _

theorem flatMap_ordered {α : Type} {gather : Node → List α}
    (hspace : ∀ name inner, gather (.space name inner) = inner.flatMap gather)
    (nodes : List Node) : ((ordered nodes).flatMap gather).Perm (nodes.flatMap gather) :=
  ((inOrder_perm _).flatMap_right gather).trans (flatMap_orderedInside hspace nodes)

/-! ### Every list is ordered -/

theorem ordered_mem_innerLists (hlist : list ∈ innerLists nodes) :
    ordered list ∈ innerLists (orderedInside nodes) := by
  induction nodes using nodesInduction with
  | nil => simp [innerLists] at hlist
  | cons d rest hinner hrest =>
    cases d with
    | space name inner =>
      simp only [innerLists, cons_append, mem_cons, mem_append] at hlist
      simp only [orderedInside, innerLists, cons_append, mem_cons, mem_append,
        mem_innerLists_inOrder]
      rcases hlist with rfl | hlist | hlist
      · exact .inl rfl
      · exact .inr (.inl (hinner name inner rfl hlist))
      · exact .inr (.inr (hrest hlist))
    | _ =>
      simp only [innerLists] at hlist
      simpa only [orderedInside, innerLists] using hrest hlist

/-- Every list of nodes stands, in order, among the lists of the ordered nodes. -/
theorem ordered_mem_nodeLists (h : list ∈ nodeLists nodes) :
    ordered list ∈ nodeLists (ordered nodes) := by
  rw [nodeLists, mem_cons] at h ⊢
  rcases h with rfl | h
  · exact .inl rfl
  · exact .inr (mem_innerLists_inOrder.mpr (ordered_mem_innerLists h))

theorem cyclesInside_eq_nil {path : String} (hnil : cyclesInside path nodes = [])
    (hlist : list ∈ innerLists nodes) : inOrder? list ≠ none := by
  induction nodes using nodesInduction generalizing path with
  | nil => simp [innerLists] at hlist
  | cons d rest hinner hrest =>
    cases d with
    | space name inner =>
      simp only [cyclesInside, append_eq_nil_iff] at hnil
      obtain ⟨⟨hhere, hinside⟩, hafter⟩ := hnil
      simp only [innerLists, cons_append, mem_cons, mem_append] at hlist
      rcases hlist with rfl | hlist | hlist
      · intro hnone
        simp [hnone] at hhere
      · exact hinner name inner rfl hinside hlist
      · exact hrest hafter hlist
    | _ =>
      simp only [cyclesInside] at hnil
      simp only [innerLists] at hlist
      exact hrest hnil hlist

/-- Without a cycle to report, every list of nodes could be ordered. -/
theorem inOrder?_ne_none_of_cycles (h : cycles (ordered nodes) = [])
    (hlist : list ∈ nodeLists nodes) : inOrder? (orderedInside list) ≠ none := by
  rw [cycles, append_eq_nil_iff] at h
  have hevery : ∀ list ∈ nodeLists (ordered nodes), inOrder? list ≠ none := by
    intro list hlist
    rw [nodeLists, mem_cons] at hlist
    rcases hlist with rfl | hlist
    · intro hnone
      simp [hnone] at h
    · exact cyclesInside_eq_nil h.2 hlist
  exact inOrder?_ne_none_of_inOrder (hevery _ (ordered_mem_nodeLists hlist))

end Writer.Cpp

end Schemata
