import Schemata.Catalog.Builtin
import Schemata.Proofs.Normal.LiftForm
import Schemata.Proofs.Normal.SortedNodes
import Schemata.Proofs.Writer.Reporting
import Schemata.Proofs.Writer.Statements

/-!
The order of statements in Python files. A class that a statement evaluates has been defined
before when the schema calls it by its own name and holds it by value. Two things are out of reach
of the order: a path into a namespace, of which only the last part is written, and a name behind
an owning pointer, which a union evaluates all the same.
-/

namespace Schemata

open Emission Schemata.Normal List

variable {name : String} {d : Node}

namespace Writer.Python

/-! ### What is evaluated is held or owned -/

theorem mentions_of_default {t : Target} {enums : List Enum} {type : TypeExpr}
    (hflat : isFlatType type = true) (h : name ∈ (defaultExpression t enums type).names) :
    Mentions type name := by
  cases type with
  | reference ref k =>
    rw [defaultExpression] at h
    split at h
    · split at h
      · exact (lowererOf t).mentions_of_defaultPhrase hflat h
      · split at h
        · simp [Expression.names, Phrase.names] at h
        · exact .inl h
    · exact (lowererOf t).mentions_of_defaultPhrase hflat h
  | _ => exact (lowererOf t).mentions_of_defaultPhrase hflat h

/-- The parts without a type mention nothing. -/
theorem mentions_of_union {t : Target} {types : List TypeExpr} (hflat : types.all isFlatType = true)
    (h : name ∈ (unionExpression t types).names) : ∃ type ∈ types, Mentions type name := by
  have hparts : areFlatTypes (types.map unionPart) = true := by
    rw [areFlatTypes_eq_all, all_map, all_eq_true]
    intro type htype
    have hpart := all_eq_true.mp hflat type htype
    cases type with
    | missing => rfl
    | _ => exact hpart
  obtain ⟨part, hpart, hmentions⟩ := (lowererOf t).mentions_of_phrases (types.map unionPart)
    hparts name (Lowerer.mem_names_generic h)
  obtain ⟨type, htype, rfl⟩ := mem_map.mp hpart
  refine ⟨type, htype, ?_⟩
  cases type with
  | missing => simp [Mentions, unionPart, TypeExpr.prim, valueRefsOfType, ownedRefsOfType] at hmentions
  | _ => exact hmentions

/-- A name that a statement evaluates is held by value, or else owned through a pointer. -/
theorem evaluated_mentioned (t : Target) (enums : List Enum) (hflat : isFlatNode d = true)
    (h : name ∈ evaluated t enums d) : name ∈ valueRefs d ∨ name ∈ ownedRefs d := by
  rw [evaluated, mem_flatMap] at h
  obtain ⟨x, hx, hname⟩ := h
  cases d with
  | struct s =>
    rw [expressions, mem_append] at hx
    rcases hx with hx | hx
    · left
      by_cases hbase : s.base = ""
      · simp [hbase] at hx
      · rw [if_neg hbase, mem_singleton] at hx
        rw [hx] at hname
        cases s
        exact mem_append_left _ (by rwa [if_neg hbase])
    · obtain ⟨m, hm, hmember⟩ := mem_filterMap.mp hx
      cases m with
      | field f =>
        cases hmember
        rw [isFlatNode] at hflat
        have htype : isFlatType f.type = true := all_eq_true.mp hflat _ hm
        rcases mentions_of_default htype hname with hvalue | howned
        · left
          cases s
          exact mem_append_right _ (mem_valueRefsOfMembers hm hvalue)
        · exact .inr (mem_flatMap.mpr ⟨_, hm, howned⟩)
      | _ => cases hmember
  | enum e =>
    rw [expressions] at hx
    split at hx
    · rw [mem_singleton.mp hx] at hname
      rw [isFlatNode, areFlatValues] at hflat
      obtain ⟨type, htype, hmentions⟩ := mentions_of_union (by rwa [all_map]) hname
      obtain ⟨v, hv, rfl⟩ := mem_map.mp htype
      exact hmentions.imp (fun h => mem_flatMap.mpr ⟨v, hv, h⟩)
        fun h => mem_flatMap.mpr ⟨v, hv, h⟩
    · cases hx
  | oneof o =>
    rw [mem_singleton.mp hx] at hname
    rw [isFlatNode, areFlatAlternatives] at hflat
    obtain ⟨type, htype, hmentions⟩ := mentions_of_union (by rwa [all_map]) hname
    obtain ⟨a, ha, rfl⟩ := mem_map.mp htype
    rw [valueRefs, valueRefsOfAlternatives_eq]
    exact hmentions.imp (fun h => mem_flatMap.mpr ⟨a, ha, h⟩)
      fun h => mem_flatMap.mpr ⟨a, ha, h⟩
  | _ => cases hx

/-! ### One statement after the other -/

theorem ne_space_of_mem_flatNodes {nodes : List Node} (hd : d ∈ flatNodes nodes) (name : String)
    (inner : List Node) : d ≠ .space name inner := by
  induction nodes using nodesInduction with
  | nil =>
    rw [flatNodes] at hd
    cases hd
  | cons first rest hinner hrest =>
    cases first with
    | space space below =>
      rw [flatNodes, mem_append] at hd
      exact hd.elim (hinner space below rfl) hrest
    | _ =>
      simp only [flatNodes, mem_cons] at hd
      rcases hd with rfl | hd
      · exact Node.noConfusion
      · exact hrest hd

theorem isFlatNode_of_mem_flatNodes {nodes : List Node} (hflat : areFlatNodes nodes = true)
    (hd : d ∈ flatNodes nodes) : isFlatNode d = true := by
  induction nodes using nodesInduction with
  | nil =>
    rw [flatNodes] at hd
    cases hd
  | cons first rest hinner hrest =>
    rw [areFlatNodes, Bool.and_eq_true] at hflat
    cases first with
    | space space below =>
      rw [flatNodes, mem_append] at hd
      exact hd.elim (hinner space below rfl hflat.1) (hrest hflat.2)
    | _ =>
      simp only [flatNodes, mem_cons] at hd
      rcases hd with rfl | hd
      · exact hflat.1
      · exact hrest hflat.2 hd

/-- The declarations of a module, in the order of their statements. -/
def statements (m : Module) : List Node := inOrder (flatNodes m.nodes)

theorem nodes_eq_statements (t : Target) (enums : List Enum) (c : Context) (m : Module) :
    (walker t enums).nodes c (statements m) =
      (walker t enums).emitPieces ((statements m).map (.whole · c)) := by
  rw [(walker t enums).nodes_eq_emitPieces (fun _ _ _ => rfl) c _ rfl,
    (walker t enums).pieces_eq_map]
  intro d hd
  exact ne_space_of_mem_flatNodes ((inOrder_perm _).mem_iff.mp hd)

/-- A cycle is reported when the classes cannot be ordered. -/
theorem reported_cycle_iff (t : Target) (m : Module) :
    ((Writer.python t).write m).2.withCode .dependencyCycle = [] ↔
      inOrder? (flatNodes m.nodes) ≠ none := by
  have hdrops : share .unsupportedDeclaration .dependencyCycle = 0 := by decide
  have hcycle : share .dependencyCycle .dependencyCycle = 1 := by decide
  rw [← length_eq_zero_iff, python_reports isOther_cycle, dropReports, hdrops, hcycle]
  cases inOrder? (flatNodes m.nodes) <;> simp

end Writer.Python

open Writer.Python

/-- The file of a flat module is one statement for each declaration, in the text of which stand
its heading and the expressions it evaluates. Unless a cycle is reported, a class that a statement
evaluates and holds by value under its own name has been defined before; what it evaluates and
does not hold by value stands behind an owning pointer. -/
theorem python_defines_before_evaluated (t : Target) (m : Module) (hflat : Flat m)
    (hcycle : ((Writer.python t).write m).2.withCode .dependencyCycle = []) :
    (∀ c, (walker t (enumsOf m.nodes)).nodes c (statements m) =
        (walker t (enumsOf m.nodes)).emitPieces ((statements m).map (.whole · c))) ∧
    (∀ d ∈ statements m, ∀ c : Context, c.parent = none →
      Shows (heading t d) ((walker t (enumsOf m.nodes)).untaken c d) ∧
        ∀ x ∈ expressions t (enumsOf m.nodes) d,
          Shows (x.text t) ((walker t (enumsOf m.nodes)).untaken c d)) ∧
    (statements m).Perm (flatNodes m.nodes) ∧
    UsesEarlier (fun d => (evaluated t (enumsOf m.nodes) d).filter (· ∈ valueRefs d))
      (named (flatNodes m.nodes)) (statements m) ∧
    ∀ d ∈ statements m, ∀ name ∈ evaluated t (enumsOf m.nodes) d,
      name ∈ valueRefs d ∨ name ∈ ownedRefs d := by
  refine ⟨fun c => nodes_eq_statements t _ c m, ?_, inOrder_perm _, ?_, ?_⟩
  · intro d _ c hparent
    exact ⟨shows_heading t _ hparent d, fun x hx => shows_expression t _ hparent hx⟩
  · refine (usesEarlier_inOrder ((reported_cycle_iff t m).mp hcycle)).mono ?_
    intro d name hname
    simpa using (List.mem_filter.mp hname).2
  · intro d hd name hname
    have hnode := isFlatNode_of_mem_flatNodes hflat ((inOrder_perm _).mem_iff.mp hd)
    exact evaluated_mentioned t _ hnode hname

/-- An order before the record it extends and the line and the state it holds. -/
def desk : Module :=
  { nodes := [
      .struct { name := "Order", base := "Record", members := [
        .field { name := "line", type := .ref "Line" },
        .field { name := "state", type := .ref "State" }] },
      .struct { name := "Line", members := [.field { name := "sku", type := .prim .string }] },
      .enum { name := "State", values := [{ name := "open", number := 0, payload := .missing }] },
      .struct { name := "Record" }] }

def Writer.Python.builtinTarget : Target := Catalog.pythonTarget.build "py"

theorem python_defines_parts_before_order :
    Flat desk ∧ ((Writer.python builtinTarget).write desk).2.withCode .dependencyCycle = [] ∧
      UsesEarlier
        (fun d => (evaluated builtinTarget (enumsOf desk.nodes) d).filter (· ∈ valueRefs d))
        (named (flatNodes desk.nodes)) (statements desk) ∧
      (statements desk).map Node.name = ["Line", "State", "Record", "Order"] ∧
      (statements desk).map (evaluated builtinTarget (enumsOf desk.nodes)) =
        [[], [], [], ["Record", "Line", "State"]] := by
  have hflat : Flat desk := by decide
  have hcycle := (reported_cycle_iff builtinTarget desk).mpr (by cbv; simp)
  have hall := python_defines_before_evaluated builtinTarget desk hflat hcycle
  refine ⟨hflat, hcycle, hall.2.2.2.1, by cbv, ?_⟩
  cbv

/-- The first node of a list that is written as the class of a name. -/
def classNamed (t : Target) (nodes : List Node) (name : String) : Option Node :=
  nodes.find? fun d => className t d.name == className t name

/-! A till has orders, each with a line that is known by its path, and payments, each with a card
that is owned. -/

def till.order : Node :=
  .struct { name := "Order", members := [.field { name := "line", type := .ref "catalog.Line" }] }

def till.line : Node :=
  .struct { name := "Line", namespaces := ["catalog"], members := [
    .field { name := "sku", type := .prim .string }] }

def till.payment : Node :=
  .oneof { name := "Payment", alternatives := [
    { name := "card", type := .indirection .uniquePtr (.ref "Card") }] }

def till.card : Node :=
  .struct { name := "Card", members := [.field { name := "number", type := .prim .string }] }

def till : Module :=
  { nodes := [till.order, .space "catalog" [till.line], till.payment, till.card] }

/-- No cycle is reported, but both the line and the card are evaluated before they are defined:
the one is held by value but under its path, the other goes by its name but is owned. -/
theorem python_evaluates_line_and_card_too_early :
    Flat till ∧ ((Writer.python builtinTarget).write till).2.withCode .dependencyCycle = [] ∧
      ¬UsesEarlier (evaluated builtinTarget (enumsOf till.nodes))
        (classNamed builtinTarget (flatNodes till.nodes)) (statements till) ∧
      ¬UsesEarlier
        (fun d => (evaluated builtinTarget (enumsOf till.nodes) d).filter (· ∈ valueRefs d))
        (classNamed builtinTarget (flatNodes till.nodes)) (statements till) ∧
      ¬UsesEarlier (evaluated builtinTarget (enumsOf till.nodes))
        (named (flatNodes till.nodes)) (statements till) := by
  have hordered : statements till = [till.order, till.line, till.payment, till.card] := by cbv
  have hline : ¬UsesEarlier
      (fun d => (evaluated builtinTarget (enumsOf till.nodes) d).filter (· ∈ valueRefs d))
      (classNamed builtinTarget (flatNodes till.nodes)) (statements till) := by
    have hnames : (evaluated builtinTarget (enumsOf till.nodes) till.order).filter
        (· ∈ valueRefs till.order) = ["catalog.Line"] := by cbv
    have hfound : classNamed builtinTarget (flatNodes till.nodes) "catalog.Line" =
        some till.line := by cbv
    intro h
    have hearlier := h [] till.order _ hordered "catalog.Line" (by simp [hnames]) _ hfound
      (by simp [till.order, till.line])
    cases hearlier
  refine ⟨by decide, (reported_cycle_iff builtinTarget till).mpr (by cbv; simp), ?_, hline, ?_⟩
  · intro h
    exact hline (h.mono fun d => List.filter_subset_self _)
  · have hnames : evaluated builtinTarget (enumsOf till.nodes) till.payment = ["Card"] := by cbv
    have hfound : named (flatNodes till.nodes) "Card" = some till.card := by cbv
    intro h
    have hearlier := h [till.order, till.line] till.payment _ hordered "Card" (by simp [hnames]) _
      hfound (by simp [till.card, till.payment])
    simp [till.order, till.line, till.card] at hearlier

end Schemata
