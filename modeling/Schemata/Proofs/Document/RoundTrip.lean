import Schemata.Proofs.Document.Formation

/-!
Modules through their documents. The document of a module is accepted exactly when every
type of the module is well formed, and then it stands for that module again, except that a
reference of no known kind has become one to a struct. No document stands for a module that
is not well formed.
-/

namespace Schemata.Document

/-! ### References of no known kind -/

/-- The kind a reference has after a document held it. -/
def settleKind (k : Kind) : Kind := if k = .unknown then .structRef else k

mutual

def settleType : TypeExpr → TypeExpr
  | .missing => .missing
  | .primitive k spelling => .primitive k spelling
  | .reference name k => .reference name (settleKind k)
  | .indirection k elem => .indirection k (settleType elem)
  | .generic k args len => .generic k (settleTypes args) len
  | .inline body => .inline (settleStruct body)
  | .emptyInline => .emptyInline

def settleTypes : List TypeExpr → List TypeExpr
  | [] => []
  | t :: ts => settleType t :: settleTypes ts

def settleStruct : Struct → Struct
  | ⟨name, namespaces, attributes, anonymous, varName, record, abstract, base, members⟩ =>
    ⟨name, namespaces, attributes, anonymous, varName, record, abstract, base,
      settleMembers members⟩

def settleMembers : List Member → List Member
  | [] => []
  | .field ⟨name, type, attributes⟩ :: ms =>
    .field ⟨name, settleType type, attributes⟩ :: settleMembers ms
  | .struct s :: ms => .struct (settleStruct s) :: settleMembers ms
  | .enum e :: ms => .enum (settleEnum e) :: settleMembers ms
  | .oneof o :: ms => .oneof (settleOneof o) :: settleMembers ms

def settleEnum : Enum → Enum
  | ⟨name, namespaces, attributes, isScoped, underlying, values⟩ =>
    ⟨name, namespaces, attributes, isScoped, underlying, settleValues values⟩

def settleValues : List EnumValue → List EnumValue
  | [] => []
  | ⟨name, number, attributes, payload⟩ :: vs =>
    ⟨name, number, attributes, settleType payload⟩ :: settleValues vs

def settleOneof : Oneof → Oneof
  | ⟨name, attributes, alternatives⟩ => ⟨name, attributes, settleAlternatives alternatives⟩

def settleAlternatives : List Schemata.Alternative → List Schemata.Alternative
  | [] => []
  | ⟨name, type, attributes⟩ :: alts =>
    ⟨name, settleType type, attributes⟩ :: settleAlternatives alts

end

mutual

def settleNode : Node → Node
  | .struct s => .struct (settleStruct s)
  | .enum e => .enum (settleEnum e)
  | .oneof o => .oneof (settleOneof o)
  | .service s => .service s
  | .space name nodes => .space name (settleNodes nodes)

def settleNodes : List Node → List Node
  | [] => []
  | d :: rest => settleNode d :: settleNodes rest

end

def settle (m : Module) : Module := { m with nodes := settleNodes m.nodes }

/-! ### Writing and reading back

Paths only tell where a fault is, so what is written is accepted at every path alike. -/

theorem referenceKind_word (path : String) (k : Kind) :
    referenceKind path (if k = .structRef ∨ k = .unknown then "" else k.name) =
      .ok (settleKind k) := by
  cases k <;> rfl

@[simp] theorem itemOfStruct_kind (s : Struct) : (itemOfStruct s).kind = "struct" := by
  cases s
  rfl

@[simp] theorem itemOfEnum_kind (e : Enum) : (itemOfEnum e).kind = "enum" := by
  cases e
  rfl

@[simp] theorem itemOfOneof_kind (o : Oneof) : (itemOfOneof o).kind = "oneof" := by
  cases o
  rfl

/-- Where a type may be left out, leaving it out is accepted besides. -/
theorem optionalType_formOfType {path : String} {t u : TypeExpr}
    (ht : typeOfForm? path (formOfType t) = .ok u ↔ TypeFormed t ∧ u = settleType t) :
    optionalType path (formOfType t) = .ok u ↔
      (t = .missing ∨ TypeFormed t) ∧ u = settleType t := by
  cases t with
  | missing =>
    simp only [formOfType, optionalType, settleType, true_or, true_and, Except.ok.injEq]
    exact eq_comm
  | _ =>
    simp only [reduceCtorEq, false_or]
    exact ht

mutual

theorem typeOfForm?_formOfType : ∀ (t : TypeExpr) (path : String) (u : TypeExpr),
    typeOfForm? path (formOfType t) = .ok u ↔ TypeFormed t ∧ u = settleType t
  | .missing, path, u => by
    simp only [formOfType, typeOfForm?, TypeFormed, reduceCtorEq, false_and]
  | .primitive k spelling, path, u => by
    simp only [formOfType, typeOfForm?, typeOfForm_iff, true_and, String.reduceEq, false_and,
      or_false, kindOfName_name, Except.ok.injEq, exists_eq_left', TypeFormed, settleType]
  | .reference name k, path, u => by
    simp only [formOfType, typeOfForm?, typeOfForm_iff, true_and, String.reduceEq, false_and,
      false_or, or_false, referenceKind_word, Except.ok.injEq, exists_eq_left', TypeFormed,
      settleType]
  | .indirection k elem, path, u => by
    simp only [formOfType, typeOfForm?, typeOfForm_iff, true_and, String.reduceEq, false_and,
      false_or, or_false, kindOfName_name, Except.ok.injEq, exists_eq_left', TypeFormed,
      settleType, typeOfForm?_formOfType elem, and_assoc, exists_and_left, exists_eq_left]
  | .generic k args len, path, u => by
    simp only [formOfType, typeOfForm?, typeOfForm_iff, true_and, String.reduceEq, false_and,
      false_or, or_false, kindOfName_name, Except.ok.injEq, exists_eq_left', TypeFormed,
      settleType, typesOfForms_formsOfTypes args, and_assoc, exists_and_left, exists_eq_left]
  | .inline body, path, u => by
    simp only [formOfType, typeOfForm?, typeOfForm_iff, true_and, String.reduceEq, false_and,
      false_or, inlineOfItem?, bind_eq_ok, pure_eq_ok, TypeFormed, settleType,
      structOfItem_itemOfStruct body, and_assoc, exists_and_left, exists_eq_left]
  | .emptyInline, path, u => by
    simp only [formOfType, typeOfForm?, typeOfForm_iff, true_and, String.reduceEq, false_and,
      false_or, inlineOfItem?, TypeFormed, settleType, Except.ok.injEq]
    exact eq_comm

theorem typesOfForms_formsOfTypes : ∀ (ts : List TypeExpr) (path : String) (i : Nat)
    (us : List TypeExpr),
    typesOfForms path i (formsOfTypes ts) = .ok us ↔ TypesFormed ts ∧ us = settleTypes ts
  | [], path, i, us => by
    simp only [formsOfTypes, typesOfForms, TypesFormed, settleTypes, true_and, Except.ok.injEq]
    exact eq_comm
  | t :: ts, path, i, us => by
    simp [formsOfTypes, typesOfForms_cons_iff, TypesFormed, settleTypes, typeOfForm?_formOfType t,
      typesOfForms_formsOfTypes ts, and_assoc]

theorem structOfItem_itemOfStruct : ∀ (s : Struct) (path : String) (u : Struct),
    structOfItem path (itemOfStruct s) = .ok u ↔ StructFormed s ∧ u = settleStruct s
  | ⟨_, _, _, _, _, _, _, _, members⟩, path, u => by
    simp [itemOfStruct, structOfItem_iff, StructFormed, settleStruct,
      membersOfItems_itemsOfMembers members, and_assoc]

theorem membersOfItems_itemsOfMembers : ∀ (ms : List Member) (path : String) (i : Nat)
    (us : List Member),
    membersOfItems path i (itemsOfMembers ms) = .ok us ↔ MembersFormed ms ∧ us = settleMembers ms
  | [], path, i, us => by
    simp only [itemsOfMembers, membersOfItems, MembersFormed, settleMembers, true_and,
      Except.ok.injEq]
    exact eq_comm
  | .field ⟨name, type, attributes⟩ :: ms, path, i, us => by
    simp [itemsOfMembers, membersOfItems_cons_iff, MembersFormed, settleMembers, memberOfItem_iff,
      fieldOfItem_iff, typeOfForm?_formOfType type, membersOfItems_itemsOfMembers ms, and_assoc]
  | .struct s :: ms, path, i, us => by
    simp [itemsOfMembers, membersOfItems_cons_iff, MembersFormed, settleMembers, memberOfItem_iff,
      itemOfStruct_kind, structOfItem_itemOfStruct s, membersOfItems_itemsOfMembers ms, and_assoc]
  | .enum e :: ms, path, i, us => by
    simp [itemsOfMembers, membersOfItems_cons_iff, MembersFormed, settleMembers, memberOfItem_iff,
      itemOfEnum_kind, enumOfItem_itemOfEnum e, membersOfItems_itemsOfMembers ms, and_assoc]
  | .oneof o :: ms, path, i, us => by
    simp [itemsOfMembers, membersOfItems_cons_iff, MembersFormed, settleMembers, memberOfItem_iff,
      itemOfOneof_kind, oneofOfItem_itemOfOneof o, membersOfItems_itemsOfMembers ms, and_assoc]

theorem enumOfItem_itemOfEnum : ∀ (e : Enum) (path : String) (u : Enum),
    enumOfItem path (itemOfEnum e) = .ok u ↔ EnumFormed e ∧ u = settleEnum e
  | ⟨_, _, _, _, _, values⟩, path, u => by
    simp [itemOfEnum, enumOfItem_iff, EnumFormed, settleEnum,
      valuesOfEntries_entriesOfValues values, and_assoc]

theorem valuesOfEntries_entriesOfValues : ∀ (values : List EnumValue) (path : String) (i : Nat)
    (us : List EnumValue),
    valuesOfEntries path i (entriesOfValues values) = .ok us ↔
      ValuesFormed values ∧ us = settleValues values
  | [], path, i, us => by
    simp only [entriesOfValues, valuesOfEntries, ValuesFormed, settleValues, true_and,
      Except.ok.injEq]
    exact eq_comm
  | ⟨_, _, _, payload⟩ :: vs, path, i, us => by
    have hpayload := fun p u => optionalType_formOfType (typeOfForm?_formOfType payload p u)
    simp [entriesOfValues, valuesOfEntries_cons_iff, ValuesFormed, settleValues, hpayload,
      valuesOfEntries_entriesOfValues vs, and_assoc]

theorem oneofOfItem_itemOfOneof : ∀ (o : Oneof) (path : String) (u : Oneof),
    oneofOfItem path (itemOfOneof o) = .ok u ↔ OneofFormed o ∧ u = settleOneof o
  | ⟨_, _, alternatives⟩, path, u => by
    simp [itemOfOneof, oneofOfItem_iff, OneofFormed, settleOneof,
      alternativesOfEntries_entriesOfAlternatives alternatives, and_assoc]

theorem alternativesOfEntries_entriesOfAlternatives : ∀ (alts : List Schemata.Alternative)
    (path : String) (i : Nat) (us : List Schemata.Alternative),
    alternativesOfEntries path i (entriesOfAlternatives alts) = .ok us ↔
      AlternativesFormed alts ∧ us = settleAlternatives alts
  | [], path, i, us => by
    simp only [entriesOfAlternatives, alternativesOfEntries, AlternativesFormed,
      settleAlternatives, true_and, Except.ok.injEq]
    exact eq_comm
  | ⟨_, type, _⟩ :: alts, path, i, us => by
    have htype := fun p u => optionalType_formOfType (typeOfForm?_formOfType type p u)
    simp [entriesOfAlternatives, alternativesOfEntries_cons_iff, AlternativesFormed,
      settleAlternatives, htype, alternativesOfEntries_entriesOfAlternatives alts, and_assoc]

end

theorem nodesOfItems_itemsOfNodes : ∀ (nodes : List Node) (path : String) (i : Nat)
    (us : List Node),
    nodesOfItems path i (itemsOfNodes nodes) = .ok us ↔ NodesFormed nodes ∧ us = settleNodes nodes
  | [], path, i, us => by
    simp only [itemsOfNodes, nodesOfItems, NodesFormed, settleNodes, true_and, Except.ok.injEq]
    exact eq_comm
  | .struct s :: rest, path, i, us => by
    simp [itemsOfNodes, nodesOfItems_cons_iff, NodesFormed, NodeFormed, settleNodes, settleNode,
      nodeOfItem_iff, itemOfStruct_kind, structOfItem_itemOfStruct, nodesOfItems_itemsOfNodes rest,
      and_assoc]
  | .enum e :: rest, path, i, us => by
    simp [itemsOfNodes, nodesOfItems_cons_iff, NodesFormed, NodeFormed, settleNodes, settleNode,
      nodeOfItem_iff, itemOfEnum_kind, enumOfItem_itemOfEnum, nodesOfItems_itemsOfNodes rest,
      and_assoc]
  | .oneof o :: rest, path, i, us => by
    simp [itemsOfNodes, nodesOfItems_cons_iff, NodesFormed, NodeFormed, settleNodes, settleNode,
      nodeOfItem_iff, itemOfOneof_kind, oneofOfItem_itemOfOneof, nodesOfItems_itemsOfNodes rest,
      and_assoc]
  | .service s :: rest, path, i, us => by
    -- no method is lost, since none was written as null
    simp [itemsOfNodes, itemOfService, nodesOfItems_cons_iff, NodesFormed, NodeFormed, settleNodes,
      settleNode, nodeOfItem_iff, nodesOfItems_itemsOfNodes rest, and_assoc]
  | .space name inner :: rest, path, i, us => by
    simp [itemsOfNodes, nodesOfItems_cons_iff, NodesFormed, NodeFormed, settleNodes, settleNode,
      nodeOfItem_iff, nodesOfItems_itemsOfNodes inner, nodesOfItems_itemsOfNodes rest, and_assoc]

theorem toModule_ofModule_eq_ok {m m' : Module} :
    toModule (ofModule m) = .ok m' ↔ WellFormed m ∧ m' = settle m := by
  simp [toModule_iff, ofModule_eq, checkVersion_current, nodesOfItems_itemsOfNodes, WellFormed,
    settle, and_assoc]

/-- Writing a module and reading it back succeeds on the well-formed modules alone, gives
the module up to references of no known kind, and these are all the modules that any
document stands for. -/
theorem toModule_ofModule_exact :
    (∀ m : Module, (∃ m', toModule (ofModule m) = .ok m') ↔ WellFormed m) ∧
    (∀ m m' : Module, toModule (ofModule m) = .ok m' → m' = settle m) ∧
    (∀ (d : Document) (m : Module), toModule d = .ok m → WellFormed m) := by
  refine ⟨?_, ?_, fun d m => wellFormed_of_toModule⟩
  · intro m
    constructor
    · rintro ⟨m', h⟩
      exact (toModule_ofModule_eq_ok.mp h).1
    · intro h
      exact ⟨settle m, toModule_ofModule_eq_ok.mpr ⟨h, rfl⟩⟩
  · intro m m' h
    exact (toModule_ofModule_eq_ok.mp h).2

end Schemata.Document
