import Mathlib
import Schemata.Schema.Basic

/-!
The declarations of a module: the nodes of all its lists that are no namespaces.
A reference has a meaning when exactly one of them carries the name it refers to.
-/

namespace Schemata.Normal

/-- Induction on a list of nodes, which may ask for the nodes of a namespace as well. -/
theorem nodesInduction {motive : List Node → Prop} (nil : motive [])
    (cons : ∀ d rest, (∀ name inner, d = .space name inner → motive inner) → motive rest →
      motive (d :: rest)) (nodes : List Node) : motive nodes := by
  induction hsize : sizeOf nodes using Nat.strong_induction_on generalizing nodes with
  | _ size ih =>
    subst hsize
    cases nodes with
    | nil => exact nil
    | cons d rest =>
      refine cons d rest ?_ (ih _ (by simp) rest rfl)
      rintro name inner rfl
      exact ih _ (by simp; omega) inner rfl

mutual

/-- What a node declares: itself, or what it holds when it is a namespace. -/
def declarationsOf : Node → List Node
  | .space _ inner => declarations inner
  | .struct s => [.struct s]
  | .enum e => [.enum e]
  | .oneof o => [.oneof o]
  | .service s => [.service s]

/-- The nodes other than namespaces of a list and of the namespaces in it. -/
def declarations : List Node → List Node
  | [] => []
  | d :: rest => declarationsOf d ++ declarations rest

end

@[simp] theorem declarations_append (xs ys : List Node) :
    declarations (xs ++ ys) = declarations xs ++ declarations ys := by
  induction xs with
  | nil => rfl
  | cons d xs ih => simp [declarations, ih]

theorem declarations_eq_flatMap (nodes : List Node) :
    declarations nodes = nodes.flatMap declarationsOf := by
  induction nodes with
  | nil => rfl
  | cons d rest ih => rw [declarations, List.flatMap_cons, ih]

/-- What holds of all nodes and of the nodes of all namespaces holds of the declarations. -/
theorem forall_declarations {holds : Node → Prop} {holdsAll : List Node → Prop}
    (hcons : ∀ d rest, holdsAll (d :: rest) → holds d ∧ holdsAll rest)
    (hspace : ∀ name inner, holds (.space name inner) → holdsAll inner) {nodes : List Node}
    (h : holdsAll nodes) : ∀ d ∈ declarations nodes, holds d := by
  induction nodes using nodesInduction with
  | nil => simp [declarations]
  | cons d rest hinner hrest =>
    obtain ⟨hd, hall⟩ := hcons d rest h
    rw [declarations, List.forall_mem_append]
    refine ⟨?_, hrest hall⟩
    cases d with
    | space name inner =>
      rw [declarationsOf]
      exact hinner name inner rfl (hspace name inner hd)
    | _ => simpa [declarationsOf] using hd

def declaredNames (nodes : List Node) : List String := (declarations nodes).map Node.name

@[simp] theorem declaredNames_append (xs ys : List Node) :
    declaredNames (xs ++ ys) = declaredNames xs ++ declaredNames ys := by
  simp [declaredNames]

/-- Among `all`, the declaration `d` is the one and only one called `name`. -/
def Sole (all : List Node) (name : String) (d : Node) : Prop :=
  all.filter (fun other => other.name == name) = [d]

/-- A declaration whose name occurs once is the only one of that name. -/
theorem sole_of_count_le_one {all : List Node} {d : Node} (hmem : d ∈ all)
    (hcount : (all.map Node.name).count d.name ≤ 1) : Sole all d.name d := by
  have hlength : (all.filter (fun other => other.name == d.name)).length ≤ 1 := by
    rw [← List.countP_eq_length_filter]
    simpa [List.count, List.countP_map, Function.comp_def] using hcount
  have hfilter : d ∈ all.filter (fun other => other.name == d.name) := by
    simpa using hmem
  unfold Sole
  generalize all.filter (fun other => other.name == d.name) = found at hlength hfilter
  match found, hlength, hfilter with
  | [x], _, hx => rw [List.mem_singleton.mp hx]

end Schemata.Normal
