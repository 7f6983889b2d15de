import Schemata.Proofs.Document.Formation

/-!
The kinds of items through reading. A document is a tree of items, each with a kind and a name:
the items of the document and of its namespaces, the members of structs, and the items that stand
for the structs of inline types. A document that is accepted keeps this tree when its module is
written again, unless the item of an inline type is of another kind than a struct: the kind of
such an item is not looked at, and it is read as a struct.
-/

namespace Schemata.Document

/-- Of a document that is accepted the kinds and names of all items are kept exactly if the items
of its inline types are structs. -/
theorem reading_keeps_kinds_iff {d : Document} {m : Module} (h : toModule d = .ok m) :
    kindTrees (ofModule m) = kindTrees d ↔
      ∀ kind ∈ inlineKindsOf (kindTrees d), kind = "struct" := by
  obtain ⟨-, nodes, hnodes, rfl⟩ := toModule_iff.mp h
  rw [ofModule_eq]
  exact (accepted_nodesOfItems d.items _ _ nodes hnodes).2.eq_iff

/-- Parcels whose state is an item written in place. -/
def parcelWith (state : Item) : Document where
  version := "1"
  items := [some {
    kind := "struct"
    name := "Parcel"
    members := [some {
      kind := "field"
      name := "state"
      type := some { form := "inline", struct := some state } }] }]

def parcelRead (state : Struct) : Module where
  nodes := [.struct { name := "Parcel", members := [.field ⟨"state", .inline state, []⟩] }]

theorem nodesOfItems_nil (path : String) (i : Nat) : nodesOfItems path i [] = .ok [] := by
  rw [nodesOfItems]

theorem membersOfItems_nil (path : String) (i : Nat) : membersOfItems path i [] = .ok [] := by
  rw [membersOfItems]

theorem toModule_parcelWith {item : Item} {state : Struct}
    (hstate : ∀ path, structOfItem path item = .ok state) :
    toModule (parcelWith item) = .ok (parcelRead state) := by
  refine toModule_iff.mpr ⟨checkVersion_current, _, ?_, rfl⟩
  simp [parcelWith, nodesOfItems_cons_iff, nodeOfItem_iff, structOfItem_iff,
    membersOfItems_cons_iff, memberOfItem_iff, fieldOfItem_iff, typeOfForm?, typeOfForm_iff,
    inlineOfItem?, hstate, nodesOfItems_nil, membersOfItems_nil]

/-- A state that is a struct with a flag. -/
def flagItem : Item where
  kind := "struct"
  name := "State"
  members := [some {
    kind := "field", name := "sent", type := some { form := "primitive", kind := Kind.bool.name } }]

def flagState : Struct where
  name := "State"
  members := [.field ⟨"sent", .prim .bool, []⟩]

/-- A state that is an enum of one value. -/
def valueItem : Item where
  kind := "enum"
  name := "State"
  values := [some { name := "sent" }]

theorem parcel_struct_kept :
    toModule (parcelWith flagItem) = .ok (parcelRead flagState) ∧
      kindTrees (ofModule (parcelRead flagState)) = kindTrees (parcelWith flagItem) := by
  have hread : toModule (parcelWith flagItem) = .ok (parcelRead flagState) := by
    refine toModule_parcelWith fun path => ?_
    simp [flagItem, flagState, structOfItem_iff, membersOfItems_cons_iff, memberOfItem_iff,
      fieldOfItem_iff, typeOfForm?, typeOfForm_iff, membersOfItems_nil, Kind.isPrimitive]
    rfl
  have hkinds : inlineKindsOf (kindTrees (parcelWith flagItem)) = ["struct"] := by cbv
  exact ⟨hread, (reading_keeps_kinds_iff hread).mpr (by simp [hkinds])⟩

/-- An enum written in place is read as a struct, and its values are dropped. -/
theorem parcel_enum_lost :
    toModule (parcelWith valueItem) = .ok (parcelRead { name := "State" }) ∧
      kindTrees (ofModule (parcelRead { name := "State" })) ≠ kindTrees (parcelWith valueItem) := by
  have hread : toModule (parcelWith valueItem) = .ok (parcelRead { name := "State" }) :=
    toModule_parcelWith fun path => by simp [valueItem, structOfItem_iff, membersOfItems_nil]
  refine ⟨hread, ?_⟩
  simp [kindTrees, parcelWith, parcelRead, ofModule_eq, itemsOfNodes, itemOfStruct, itemsOfMembers,
    formOfType, kindsOfItems, innerOfItem_eq, kindsOfForm?, kindsOfForm_eq, kindsOfInline,
    valueItem, kindsOfValues]

end Schemata.Document
