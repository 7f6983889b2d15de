import Schemata.Proofs.Normal.FlattenMeaning

/-!
When the declarations of a flattened module have distinct names. Flattening gives out names
that are not in use, and the names in use are collected before it starts, from declarations
and from the types of fields. The types of oneof alternatives and enum payloads are not
looked at, so a name declared there may be given out as well, and then two declarations
share it. Nothing else can go wrong.
-/

namespace Schemata.Normal

open List

/-! ### The names given out -/

def takenAfter (m : Module) : List String :=
  (flattenEach m.nodes { taken := namesOfNodes m.nodes }).2.taken

/-- The names flattening gives out, the last one first: what is in use after it and was not
before. -/
def givenNames (m : Module) : List String :=
  (takenAfter m).take ((takenAfter m).length - (namesOfNodes m.nodes).length)

/-- Names are given out once each, none of them in use; and the declarations of the flattened
module have the names the module declares and those given out. -/
theorem givenNames_spec (m : Module) :
    Unused (namesOfNodes m.nodes) (givenNames m) ∧
      ∀ n, (declaredNames (flatten m).1.nodes).count n =
        (ownNamesOfNodes m.nodes).count n + (givenNames m).count n := by
  obtain ⟨moved, fresh, hrun⟩ := flattenEach_moves m.nodes { taken := namesOfNodes m.nodes }
  have htaken : takenAfter m = fresh ++ namesOfNodes m.nodes := hrun.taken
  have hgiven : givenNames m = fresh := by
    rw [givenNames, htaken]
    simp
  have hfront : (flattenEach m.nodes { taken := namesOfNodes m.nodes }).2.hoisted = moved :=
    hrun.front
  rw [hgiven]
  refine ⟨hrun.unused, ?_⟩
  intro n
  rw [← hrun.names n, declaredNames, declarations_flatten, hfront, map_append, count_append]
  rfl

/-! ### Names below alternatives and payloads are declared names -/

mutual

theorem sumNamesOfType_subset : ∀ t : TypeExpr, sumNamesOfType t ⊆ ownNamesOfType t
  | .missing => nil_subset _
  | .primitive _ _ => nil_subset _
  | .reference _ _ => nil_subset _
  | .emptyInline => nil_subset _
  | .indirection _ elem => sumNamesOfType_subset elem
  | .generic _ args _ => sumNamesOfTypes_subset args
  | .inline s => sumNamesOfStruct_subset s

theorem sumNamesOfTypes_subset : ∀ ts : List TypeExpr, sumNamesOfTypes ts ⊆ ownNamesOfTypes ts
  | [] => nil_subset _
  | t :: ts => by
    have ht := sumNamesOfType_subset t
    have hts := sumNamesOfTypes_subset ts
    grind [sumNamesOfTypes, ownNamesOfTypes]

theorem sumNamesOfStruct_subset : ∀ s : Struct, sumNamesOfStruct s ⊆ ownNamesOfStruct s
  | ⟨_, _, _, _, _, _, _, _, members⟩ => by
    have hmembers := sumNamesOfMembers_subset members
    grind [sumNamesOfStruct, ownNamesOfStruct]

theorem sumNamesOfMembers_subset : ∀ ms : List Member, sumNamesOfMembers ms ⊆ ownNamesOfMembers ms
  | [] => nil_subset _
  | .field ⟨_, type, _⟩ :: ms => by
    have htype := sumNamesOfType_subset type
    have hms := sumNamesOfMembers_subset ms
    grind [sumNamesOfMembers, ownNamesOfMembers]
  | .oneof ⟨_, _, alts⟩ :: ms => by
    have hms := sumNamesOfMembers_subset ms
    grind [sumNamesOfMembers, ownNamesOfMembers]
  | .enum ⟨_, _, _, _, _, values⟩ :: ms => by
    have hms := sumNamesOfMembers_subset ms
    grind [sumNamesOfMembers, ownNamesOfMembers]
  | .struct s :: ms => by
    have hs := sumNamesOfStruct_subset s
    have hms := sumNamesOfMembers_subset ms
    grind [sumNamesOfMembers, ownNamesOfMembers]

end

mutual

theorem sumNamesOfNode_subset : ∀ d : Node, sumNamesOfNode d ⊆ ownNamesOfNode d
  | .struct s => subset_cons_of_subset _ (sumNamesOfMembers_subset s.members)
  | .enum _ => subset_cons_self _ _
  | .oneof _ => subset_cons_self _ _
  | .space _ inner => sumNamesOfNodes_subset inner
  | .service _ => nil_subset _

theorem sumNamesOfNodes_subset : ∀ nodes : List Node, sumNamesOfNodes nodes ⊆ ownNamesOfNodes nodes
  | [] => nil_subset _
  | d :: rest => by
    have hd := sumNamesOfNode_subset d
    have hrest := sumNamesOfNodes_subset rest
    grind [sumNamesOfNodes, ownNamesOfNodes]

end

/-! ### Distinct names -/

/-- In a module whose nodes have names and whose declared names are distinct, flattening
keeps names distinct exactly if it gives out no name that is declared below an alternative
or a payload. -/
theorem flatten_names_distinct_iff (m : Module) (hroots : ∀ d ∈ declarations m.nodes, d.name ≠ "")
    (hown : (ownNamesOfNodes m.nodes).Nodup) :
    (declaredNames (flatten m).1.nodes).Nodup ↔
      ∀ n ∈ sumNamesOfNodes m.nodes, n ∉ givenNames m := by
  obtain ⟨hunused, hcount⟩ := givenNames_spec m
  rw [List.nodup_iff_count_le_one] at hown ⊢
  constructor
  · intro hdistinct n hsum hgiven
    have hdeclared := List.count_pos_iff.mpr (sumNamesOfNodes_subset m.nodes hsum)
    have hagain := List.count_pos_iff.mpr hgiven
    have hboth := hcount n
    have hone := hdistinct n
    omega
  · intro hfree n
    have hgiven := List.nodup_iff_count_le_one.mp hunused.nodup n
    rw [hcount n]
    by_cases hn : n ∈ givenNames m
    · -- a name given out is not in use, and what is not in use is declared in a sum only
      have hnot : n ∉ ownNamesOfNodes m.nodes := by
        intro hdeclared
        rcases List.mem_append.mp (ownNamesOfNodes_subset m.nodes hroots hdeclared) with
          hused | hsum
        · exact hunused.free n hn hused
        · exact hfree n hsum hn
      rw [List.count_eq_zero_of_not_mem hnot]
      omega
    · rw [List.count_eq_zero_of_not_mem hn]
      exact hown n

/-- An order with a line written as the type of a field, and a card, named `card`, as an
alternative of the payment. The line will ask for the name `OrderLine`. -/
def orderPaidBy (card : String) : Module where
  nodes := [.struct { name := "Order", members := [
    .field ⟨"line", .inline { isAnonymous := true, members := [
      .field ⟨"sku", .prim .string, []⟩] }, []⟩,
    .oneof ⟨"payment", [], [⟨"card", .inline { name := card, members := [
      .field ⟨"number", .prim .string, []⟩] }, []⟩]⟩] }]

theorem orderPaidBy_names_distinct :
    (∀ d ∈ declarations (orderPaidBy "Card").nodes, d.name ≠ "") ∧
      (ownNamesOfNodes (orderPaidBy "Card").nodes).Nodup ∧
      (declaredNames (flatten (orderPaidBy "Card")).1.nodes).Nodup := by
  have hroots : ∀ d ∈ declarations (orderPaidBy "Card").nodes, d.name ≠ "" := by decide
  have hown : (ownNamesOfNodes (orderPaidBy "Card").nodes).Nodup := by decide
  have hgiven : givenNames (orderPaidBy "Card") = ["OrderLine"] := by cbv
  refine ⟨hroots, hown, (flatten_names_distinct_iff _ hroots hown).mpr ?_⟩
  rw [hgiven]
  decide

/-- The name given to the line is the one the card has. -/
theorem orderPaidBy_names_clash :
    (∀ n ∈ ownNamesOfNodes (orderPaidBy "OrderLine").nodes, n ≠ "") ∧
      (ownNamesOfNodes (orderPaidBy "OrderLine").nodes).Nodup ∧
      ¬ (declaredNames (flatten (orderPaidBy "OrderLine")).1.nodes).Nodup := by
  have hnames : declaredNames (flatten (orderPaidBy "OrderLine")).1.nodes =
      ["OrderLine", "OrderLine", "Order"] := by cbv
  refine ⟨by decide, by decide, ?_⟩
  rw [hnames]
  decide

end Schemata.Normal
