import Schemata.Catalog.Builtin
import Schemata.Proofs.Normal.FlatForm
import Schemata.Proofs.Writer.OrderedSpaces
import Schemata.Proofs.Writer.Reporting

/-!
The order of definitions in C++ headers. Each list of nodes is ordered by the plain names its
nodes hold by value, so a type is defined before it is held where both stand in one list. Between
lists there is no order: a path into a namespace is the name of no node of the list around it.
-/

namespace Schemata

open Emission Schemata.Normal List

/-! ### What a pass emits -/

namespace Walker

variable {m : Type → Type} [Monad m]

/-- The declaration that a piece is the text of. -/
def Piece.declaration? : Piece → Option Node
  | .whole n _ => some n
  | .opening _ _ | .closing _ _ => none

/-- The pieces of a list of nodes hold its declarations, in order. -/
theorem declarations_of_pieces (w : Walker m) : ∀ (c : Context) (nodes : List Node),
    (w.pieces c nodes).filterMap Piece.declaration? = declarations nodes
  | _, [] => by rw [pieces, declarations, filterMap_nil]
  | c, d :: rest => by
    have hrest := declarations_of_pieces w c rest
    cases d with
    | space name inner =>
      have hinner := declarations_of_pieces w (w.inside c name) inner
      simp [pieces, filterMap_cons, filterMap_append, Piece.declaration?, hinner, hrest,
        declarations, declarationsOf]
    | _ =>
      simp [pieces, Piece.declaration?, hrest, declarations, declarationsOf]

end Walker

namespace Writer.Cpp

/-- Whether a node is written as a definition: of a struct, an enum or an alias. -/
def isDefinition : Node → Bool
  | .struct _ | .enum _ | .oneof _ => true
  | .space _ _ | .service _ => false

variable (nodes : List Node)

def definitions : List Node := (declarations nodes).filter isDefinition

/-- The pieces that are emitted for a module after its structs are declared. -/
def definingPieces (t : Target) (m : Module) : List Walker.Piece :=
  (walker t).pieces ((walker t).outermost m .normal) (ordered m.nodes)

theorem nodes_eq_definingPieces (t : Target) (m : Module) :
    (walker t).nodes ((walker t).outermost m .normal) (ordered m.nodes) =
      (walker t).emitPieces (definingPieces t m) := by
  have huntaken : ∀ d c, c.pass = .normal → (walker t).hooks.takeNode d c = pure none := by
    intro d c hpass
    have hnone : declaration t d c = none := by
      unfold declaration
      exact if_pos (by simp [hpass])
    exact congrArg pure hnone
  exact (walker t).nodes_eq_emitPieces huntaken _ _ rfl

/-! ### Blocks -/

theorem declarations_together {nodes list : List Node} (hlist : list ∈ innerLists nodes) :
    declarations list <:+: declarations nodes := by
  induction nodes using nodesInduction with
  | nil => simp [innerLists] at hlist
  | cons d rest hinner hrest =>
    rw [declarations]
    cases d with
    | space name inner =>
      simp only [innerLists, cons_append, mem_cons, mem_append] at hlist
      rw [declarationsOf]
      rcases hlist with rfl | hlist | hlist
      · exact (prefix_append _ _).isInfix
      · exact (hinner name inner rfl hlist).trans (prefix_append _ _).isInfix
      · exact (hrest hlist).trans (suffix_append _ _).isInfix
    | _ =>
      simp only [innerLists] at hlist
      exact (hrest hlist).trans (suffix_append _ _).isInfix

/-- The definitions of each list of nodes stand together. -/
theorem definitions_together {nodes list : List Node} (h : list ∈ nodeLists nodes) :
    definitions (ordered list) <:+: definitions (ordered nodes) := by
  apply List.IsInfix.filter
  have hordered := ordered_mem_nodeLists h
  rw [nodeLists, mem_cons] at hordered
  rcases hordered with heq | hordered
  · rw [heq]
  · exact declarations_together hordered

/-! ### Order inside a block -/

/-- The definitions of a list itself stand in its block in the order of the list, with those of
its namespaces between them. -/
theorem filter_sublist_definitions : (nodes.filter isDefinition).Sublist (definitions nodes) := by
  induction nodes with
  | nil => exact .slnil
  | cons d rest ih =>
    have hsplit : definitions (d :: rest) =
        (declarationsOf d).filter isDefinition ++ definitions rest := by
      rw [definitions, declarations, filter_append, definitions]
    rw [hsplit, filter_cons]
    cases d with
    | space name inner => exact ih.trans (sublist_append_right _ _)
    | service s => exact ih
    | _ => exact ih.cons_cons _

theorem filter_map_settle (d? : Option Node) :
    (d?.map settle).filter isDefinition = d?.filter isDefinition := by
  cases d? with
  | none => rfl
  | some d => cases d <;> rfl

/-- Ordering inside namespaces changes no definition and no name. -/
theorem named_orderedInside (name : String) :
    (named (orderedInside nodes) name).filter isDefinition =
      (named nodes name).filter isDefinition := by
  rw [orderedInside_eq_map, named, List.find?_map]
  simp only [Function.comp_def, settle_name]
  exact filter_map_settle _

theorem filter_map_settle_list :
    (nodes.map settle).filter isDefinition = nodes.filter isDefinition := by
  induction nodes with
  | nil => rfl
  | cons d rest ih => cases d <;> simp [settle, isDefinition, filter_cons, ih]

theorem usesEarlier_ordered {nodes : List Node} (h : inOrder? (orderedInside nodes) ≠ none) :
    UsesEarlier valueRefs (fun name => (named nodes name).filter isDefinition)
      ((ordered nodes).filter isDefinition) := by
  have hsorted := (usesEarlier_inOrder h).filter isDefinition
  simp only [named_orderedInside] at hsorted
  exact hsorted

/-! ### Headers without a reported cycle -/

/-- A cycle is reported when some list of nodes cannot be ordered. -/
theorem reported_cycle_iff (t : Target) (m : Module) :
    ((Writer.cpp t).write m).2.withCode .dependencyCycle = [] ↔ cycles (ordered m.nodes) = [] := by
  have hdrops : share .unsupportedDeclaration .dependencyCycle = 0 := by decide
  have hcycle : share .dependencyCycle .dependencyCycle = 1 := by decide
  rw [← length_eq_zero_iff, cpp_reports isOther_cycle, dropReports, hdrops, hcycle,
    Nat.mul_zero, Nat.add_zero, Nat.mul_one, length_eq_zero_iff]

end Writer.Cpp

open Writer.Cpp

/-- The definitions of a module are emitted depth first, those of each list of nodes together.
Unless a cycle is reported, each stands behind the definitions of its own list that it holds by
value under their names. -/
theorem header_defines_before_held (t : Target) (m : Module)
    (hcycle : ((Writer.cpp t).write m).2.withCode .dependencyCycle = []) :
    ((walker t).nodes ((walker t).outermost m .normal) (ordered m.nodes) =
        (walker t).emitPieces (definingPieces t m) ∧
      ((definingPieces t m).filterMap Walker.Piece.declaration?).filter isDefinition =
        definitions (ordered m.nodes)) ∧
    ∀ list ∈ nodeLists m.nodes,
      definitions (ordered list) <:+: definitions (ordered m.nodes) ∧
      ((ordered list).filter isDefinition).Sublist (definitions (ordered list)) ∧
      ((ordered list).filter isDefinition).Perm (list.filter isDefinition) ∧
      UsesEarlier valueRefs (fun name => (named list name).filter isDefinition)
        ((ordered list).filter isDefinition) := by
  refine ⟨⟨nodes_eq_definingPieces t m, ?_⟩, ?_⟩
  · rw [definingPieces, Walker.declarations_of_pieces, definitions]
  intro list hlist
  refine ⟨definitions_together hlist, filter_sublist_definitions _, ?_, ?_⟩
  · rw [← filter_map_settle_list list]
    exact (ordered_perm list).filter isDefinition
  · have hnone := (reported_cycle_iff t m).mp hcycle
    exact usesEarlier_ordered (inOrder?_ne_none_of_cycles hnone hlist)

/-- A namespace in which an order stands before the line it holds. -/
def shop : List Node :=
  [.struct { name := "Order", members := [.field { name := "line", type := .ref "Line" }] },
    .struct { name := "Line", members := [.field { name := "sku", type := .prim .string }] }]

theorem header_defines_line_before_order :
    ((Writer.cpp (Catalog.cppTarget.build "h")).write
        { nodes := [.space "shop" shop] }).2.withCode .dependencyCycle = [] ∧
      UsesEarlier valueRefs (fun name => (named shop name).filter isDefinition)
        ((ordered shop).filter isDefinition) ∧
      ((ordered shop).filter isDefinition).map Node.name = ["Line", "Order"] := by
  have hreported := (reported_cycle_iff (Catalog.cppTarget.build "h")
    { nodes := [.space "shop" shop] }).mpr (by cbv)
  have hshop : shop ∈ nodeLists [.space "shop" shop] := by simp [nodeLists, innerLists]
  have hlist := (header_defines_before_held (Catalog.cppTarget.build "h") _ hreported).2 shop hshop
  exact ⟨hreported, hlist.2.2.2, by cbv⟩

/-- An order and, in a namespace, the line it holds under its path. -/
def lineBehindOrder : Module :=
  { nodes := [
      .struct { name := "Order", members := [
        .field { name := "line", type := .ref "catalog.Line" }] },
      .space "catalog" [
        .struct { name := "Line", namespaces := ["catalog"], members := [
          .field { name := "sku", type := .prim .string }] }]] }

/-- No cycle is reported, but the order is defined before the line it holds. -/
theorem header_defines_order_before_line :
    Flat lineBehindOrder ∧
      ((Writer.cpp (Catalog.cppTarget.build "h")).write lineBehindOrder).2.withCode
        .dependencyCycle = [] ∧
      ¬UsesEarlier valueRefs
        (fun name => (findNode? lineBehindOrder.nodes name).filter isDefinition)
        (definitions (ordered lineBehindOrder.nodes)) := by
  have hordered : ordered lineBehindOrder.nodes = lineBehindOrder.nodes := by cbv
  have hnone : cycles (ordered lineBehindOrder.nodes) = [] := by
    rw [hordered]
    simp only [cycles, cyclesInside, lineBehindOrder]
    decide
  refine ⟨by decide, (reported_cycle_iff _ lineBehindOrder).mpr hnone, ?_⟩
  rw [hordered]
  intro h
  have hfound : findNode? lineBehindOrder.nodes "catalog.Line" = some
      (.struct { name := "Line", namespaces := ["catalog"], members := [
        .field { name := "sku", type := .prim .string }] }) := by rfl
  have hearlier := h [] _ _ rfl "catalog.Line" (by decide) _ (by simp only [hfound]; rfl) (by simp)
  cases hearlier

end Schemata
