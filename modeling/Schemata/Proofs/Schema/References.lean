import Mathlib
import Schemata.Schema.Path

/-!
The names a module refers to. A visit to a type comes with the path of the member that
holds it, which does not matter for the name in it: `refsOfNodes` lists the same names by
recursion on the declarations alone.
-/

namespace Schemata

open List

variable {n : String}

mutual

/-- The names the types inside a type refer to, in the order they are visited. -/
def refsOfType : TypeExpr → List String
  | .missing | .primitive _ _ | .emptyInline => []
  | .reference name _ => [name]
  | .indirection _ elem => refsOfType elem
  | .generic _ args _ => refsOfTypes args
  | .inline s => refsOfStruct s

def refsOfTypes : List TypeExpr → List String
  | [] => []
  | t :: ts => refsOfType t ++ refsOfTypes ts

def refsOfStruct : Struct → List String
  | ⟨_, _, _, _, _, _, _, _, members⟩ => refsOfMembers members

def refsOfMembers : List Member → List String
  | [] => []
  | m :: ms => refsOfMember m ++ refsOfMembers ms

def refsOfMember : Member → List String
  | .field ⟨_, type, _⟩ => refsOfType type
  | .oneof ⟨_, _, alts⟩ => refsOfAlternatives alts
  | .enum ⟨_, _, _, _, _, values⟩ => refsOfValues values
  | .struct s => refsOfStruct s

def refsOfAlternatives : List Alternative → List String
  | [] => []
  | ⟨_, type, _⟩ :: alts => refsOfType type ++ refsOfAlternatives alts

def refsOfValues : List EnumValue → List String
  | [] => []
  | ⟨_, _, _, payload⟩ :: values => refsOfType payload ++ refsOfValues values

end

mutual

def refsOfNode : Node → List String
  | .struct s => refsOfMembers s.members
  | .enum e => refsOfValues e.values
  | .oneof o => refsOfAlternatives o.alternatives
  | .space _ inner => refsOfNodes inner
  | .service _ => []

def refsOfNodes : List Node → List String
  | [] => []
  | d :: rest => refsOfNode d ++ refsOfNodes rest

end

theorem refsOfStruct_eq (s : Struct) : refsOfStruct s = refsOfMembers s.members := by
  cases s
  rw [refsOfStruct]

theorem refsOfMember_enum (e : Enum) : refsOfMember (.enum e) = refsOfValues e.values := by
  cases e
  rw [refsOfMember]

theorem refsOfValues_eq (values : List EnumValue) :
    refsOfValues values = (values.map EnumValue.payload).flatMap refsOfType := by
  induction values with
  | nil => rfl
  | cons v values ih =>
    cases v
    rw [refsOfValues, ih, map_cons, flatMap_cons]

@[simp] theorem refsOfMembers_append (xs ys : List Member) :
    refsOfMembers (xs ++ ys) = refsOfMembers xs ++ refsOfMembers ys := by
  induction xs with
  | nil => rfl
  | cons m xs ih => simp [refsOfMembers, ih]

@[simp] theorem refsOfNodes_append (xs ys : List Node) :
    refsOfNodes (xs ++ ys) = refsOfNodes xs ++ refsOfNodes ys := by
  induction xs with
  | nil => rfl
  | cons d xs ih => simp [refsOfNodes, ih]

/-! ### Visits agree -/

def visitedRefs (visits : List (String × TypeExpr)) : List String :=
  visits.filterMap fun
    | (_, .reference name _) => some name
    | _ => none

@[simp] theorem visitedRefs_append (xs ys : List (String × TypeExpr)) :
    visitedRefs (xs ++ ys) = visitedRefs xs ++ visitedRefs ys := by
  simp [visitedRefs]

mutual

theorem visitedRefs_type : ∀ (t : TypeExpr) (path : String),
    visitedRefs (t.visits path) = refsOfType t
  | .missing, _ => rfl
  | .primitive _ _, _ => rfl
  | .reference _ _, _ => rfl
  | .emptyInline, _ => rfl
  | .indirection _ elem, path => visitedRefs_type elem path
  | .generic _ args _, path => visitedRefs_types args path
  | .inline s, path => visitedRefs_struct s path

theorem visitedRefs_types : ∀ (ts : List TypeExpr) (path : String),
    visitedRefs (visitsOfTypes path ts) = refsOfTypes ts
  | [], _ => rfl
  | t :: ts, path => by
    rw [visitsOfTypes, visitedRefs_append, visitedRefs_type t, visitedRefs_types ts, refsOfTypes]

theorem visitedRefs_struct : ∀ (s : Struct) (path : String),
    visitedRefs (s.visits path) = refsOfStruct s
  | ⟨_, _, _, _, _, _, _, _, members⟩, path => visitedRefs_members members path

theorem visitedRefs_members : ∀ (ms : List Member) (path : String),
    visitedRefs (visitsOfMembers path ms) = refsOfMembers ms
  | [], _ => rfl
  | m :: ms, path => by
    rw [visitsOfMembers, visitedRefs_append, visitedRefs_member m, visitedRefs_members ms,
      refsOfMembers]

theorem visitedRefs_member : ∀ (m : Member) (path : String),
    visitedRefs (m.visits path) = refsOfMember m
  | .field ⟨_, type, _⟩, _ => visitedRefs_type type _
  | .oneof ⟨_, _, alts⟩, _ => visitedRefs_alternatives alts _
  | .enum ⟨_, _, _, _, _, values⟩, _ => visitedRefs_values values _
  | .struct ⟨_, _, _, _, _, _, _, _, members⟩, _ => visitedRefs_members members _

theorem visitedRefs_alternatives : ∀ (alts : List Alternative) (path : String),
    visitedRefs (visitsOfAlternatives path alts) = refsOfAlternatives alts
  | [], _ => rfl
  | ⟨_, type, _⟩ :: alts, path => by
    rw [visitsOfAlternatives, visitedRefs_append, visitedRefs_type type,
      visitedRefs_alternatives alts, refsOfAlternatives]

theorem visitedRefs_values : ∀ (values : List EnumValue) (path : String),
    visitedRefs (visitsOfValues path values) = refsOfValues values
  | [], _ => rfl
  | ⟨_, _, _, payload⟩ :: values, path => by
    rw [visitsOfValues, visitedRefs_append, visitedRefs_type payload, visitedRefs_values values,
      refsOfValues]

end

theorem visitedRefs_nodes : ∀ (nodes : List Node) (path : String),
    visitedRefs (visitsOfNodes path nodes) = refsOfNodes nodes
  | [], _ => by
    rw [visitsOfNodes]
    rfl
  | .struct s :: rest, path => by
    rw [visitsOfNodes, visitedRefs_append, visitedRefs_struct, refsOfStruct_eq,
      visitedRefs_nodes rest, refsOfNodes, refsOfNode]
  | .enum e :: rest, path => by
    rw [visitsOfNodes, visitedRefs_append, visitedRefs_values, visitedRefs_nodes rest,
      refsOfNodes, refsOfNode]
  | .oneof o :: rest, path => by
    rw [visitsOfNodes, visitedRefs_append, visitedRefs_alternatives, visitedRefs_nodes rest,
      refsOfNodes, refsOfNode]
  | .space name inner :: rest, path => by
    rw [visitsOfNodes, visitedRefs_append, visitedRefs_nodes inner, visitedRefs_nodes rest,
      refsOfNodes, refsOfNode]
  | .service s :: rest, path => by
    rw [visitsOfNodes, visitedRefs_nodes rest, refsOfNodes, refsOfNode, nil_append]

theorem references_eq (m : Module) : m.references = refsOfNodes m.nodes :=
  visitedRefs_nodes m.nodes ""

/-! ### Unresolved names -/

theorem mem_eraseRepsBy_loop {a : String} {as acc : List String} :
    n ∈ eraseRepsBy.loop (· == ·) a as acc ↔ n ∈ acc ∨ n = a ∨ n ∈ as := by
  induction as generalizing a acc with
  | nil => simp [eraseRepsBy.loop, or_comm]
  | cons b as ih =>
    rw [eraseRepsBy.loop]
    split
    next hsame =>
      have hab : a = b := beq_iff_eq.mp hsame
      rw [ih, hab]
      simp
    next =>
      rw [ih]
      simp only [mem_cons]
      tauto

theorem mem_eraseReps {names : List String} : n ∈ names.eraseReps ↔ n ∈ names := by
  cases names with
  | nil => rfl
  | cons a as =>
    rw [eraseReps, eraseRepsBy, mem_eraseRepsBy_loop]
    simp

@[simp] theorem declaredNames_path_append (path : String) (xs ys : List Node) :
    declaredNames path (xs ++ ys) = declaredNames path xs ++ declaredNames path ys := by
  induction xs with
  | nil => simp [declaredNames]
  | cons d xs ih => cases d <;> simp [declaredNames, ih]

/-- What a node declares counts as declared in every list that it stands in. -/
theorem declaredNames_subset_of_mem (path : String) {nodes : List Node} {d : Node}
    (hd : d ∈ nodes) : declaredNames path [d] ⊆ declaredNames path nodes := by
  obtain ⟨before, behind, rfl⟩ := append_of_mem hd
  rw [append_cons, declaredNames_path_append, declaredNames_path_append]
  exact subset_append_of_subset_left _ (subset_append_right _ _)

/-- A name is unresolved when it is referred to and not declared, neither plainly nor below
its namespaces. -/
theorem mem_unresolved {m : Module} :
    n ∈ m.unresolved ↔ n ∈ m.references ∧ n ∉ declaredNames "" m.nodes := by
  simp [Module.unresolved, mem_eraseReps, mem_mergeSort]

theorem pairwise_eraseRepsBy_loop {a : String} {as acc : List String}
    (hacc : (a :: acc).Pairwise (· > ·)) (has : (a :: as).Pairwise (· ≤ ·)) :
    (eraseRepsBy.loop (· == ·) a as acc).Pairwise (· < ·) := by
  induction as generalizing a acc with
  | nil =>
    rw [eraseRepsBy.loop, pairwise_reverse]
    exact hacc
  | cons b as ih =>
    rw [pairwise_cons] at has
    rw [eraseRepsBy.loop]
    split
    next hsame =>
      have hab : a = b := beq_iff_eq.mp hsame
      subst hab
      exact ih hacc has.2
    next hne =>
      -- the next name is larger than the last one kept, so than all of them
      have hlt : a < b := lt_of_le_of_ne (has.1 b mem_cons_self) (beq_eq_false_iff_ne.mp hne)
      refine ih (pairwise_cons.mpr ⟨?_, hacc⟩) has.2
      intro x hx
      rcases mem_cons.mp hx with rfl | hx
      · exact hlt
      · exact lt_trans ((pairwise_cons.mp hacc).1 x hx) hlt

theorem pairwise_eraseReps {names : List String} (h : names.Pairwise (· ≤ ·)) :
    names.eraseReps.Pairwise (· < ·) := by
  cases names with
  | nil => exact .nil
  | cons a as => exact pairwise_eraseRepsBy_loop (pairwise_singleton _ a) h

/-- Unresolved names are listed in order, each of them once. -/
theorem pairwise_unresolved (m : Module) : m.unresolved.Pairwise (· < ·) := by
  have htrans : ∀ a b c : String,
      decide (a ≤ b) = true → decide (b ≤ c) = true → decide (a ≤ c) = true := by
    intro a b c hab hbc
    exact decide_eq_true (le_trans (of_decide_eq_true hab) (of_decide_eq_true hbc))
  have htotal : ∀ a b : String, (decide (a ≤ b) || decide (b ≤ a)) = true := by
    intro a b
    simpa using le_total a b
  exact pairwise_eraseReps ((pairwise_mergeSort htrans htotal _).imp of_decide_eq_true)

end Schemata
