import Schemata.Generation
import Schemata.Proofs.Catalog.Builtin
import Schemata.Proofs.Normal.LiftForm
import Schemata.Proofs.Writer.OrderedSpaces
import Schemata.Proofs.Writer.Reporting

/-!
Nothing is left out of a normalized module. The writers of source text leave out what their
notation has no form for and report it: all of them nested structs and enums, those of Go and
Rust oneofs as well. Flattening takes away the former and lifting, which is asked for by the
targets of Go and Rust, the latter. The rest of the argument is that normal forms hold at every
depth of namespaces, that ordering and collapsing namespaces leave out nothing, and that the
built-in catalog asks for the passes its writers need.
-/

namespace Schemata

open Emission Schemata.Normal

/-! ### Normalized modules -/

variable (t : Target)

theorem normalize_only (m : Module) : (normalize t m).2.Only (flattenCodes ++ liftCodes) := by
  rw [normalize]
  apply Diagnostics.Only.append
  · cases t.flatten with
    | true => exact flatten_only m
    | false => exact .empty _
  · cases t.lift with
    | true => exact lift_only _
    | false => exact .empty _

theorem flat_normalize {t : Target} (hflatten : t.flatten = true) (m : Module) :
    Flat (normalize t m).1 := by
  simp only [normalize, hflatten, if_true]
  split
  · exact flat_lift (flat_flatten m)
  · exact flat_flatten m

theorem settled_normalize {t : Target} (hlift : t.lift = true) (m : Module) :
    areSettledNodes (normalize t m).1.nodes = true := by
  simp only [normalize, hlift, if_true]
  exact settled_lift _

theorem leftOut_members_of_flat {ms : List Member} (hflat : ms.all isFlatMember = true) :
    ms.filter (!isSlot ·) = [] := by
  rw [List.filter_eq_nil_iff]
  intro m hm
  have hmember := List.all_eq_true.mp hflat m hm
  cases m with
  | field f => simp [isSlot]
  | oneof o => simp [isSlot]
  | enum e => cases hmember
  | struct s => cases hmember

/-- In a flat list every member is a field or a oneof. -/
theorem leftOut_of_flat {nodes : List Node} (hflat : areFlatNodes nodes = true) :
    leftOut isSlot nodes = [] := by
  induction nodes using nodesInduction with
  | nil => rfl
  | cons d rest hinner hrest =>
    rw [areFlatNodes, Bool.and_eq_true] at hflat
    rw [leftOut, hrest hflat.2, List.append_nil]
    cases d with
    | struct s => exact leftOut_members_of_flat hflat.1
    | enum e => rfl
    | oneof o => rfl
    | space name inner => exact hinner name inner rfl hflat.1
    | service s => rfl

theorem leftOut_members_of_settled {ms : List Member} (hflat : ms.all isFlatMember = true)
    (hsettled : areSettledMembers ms = true) : ms.filter (!isField ·) = [] := by
  induction ms with
  | nil => rfl
  | cons m ms ih =>
    rw [List.all_cons, Bool.and_eq_true] at hflat
    cases m with
    | field f =>
      cases f
      rw [areSettledMembers, Bool.and_eq_true] at hsettled
      exact ih hflat.2 hsettled.2
    | oneof o => simp [areSettledMembers] at hsettled
    | _ => simp [isFlatMember] at hflat

/-- In a flat list without sum types every member is a field. -/
theorem leftOut_of_settled {nodes : List Node} (hflat : areFlatNodes nodes = true)
    (hsettled : areSettledNodes nodes = true) : leftOut isField nodes = [] := by
  induction nodes using nodesInduction with
  | nil => rfl
  | cons d rest hinner hrest =>
    rw [areFlatNodes, Bool.and_eq_true] at hflat
    rw [areSettledNodes, Bool.and_eq_true] at hsettled
    rw [leftOut, hrest hflat.2 hsettled.2, List.append_nil]
    cases d with
    | struct s => exact leftOut_members_of_settled hflat.1 hsettled.1
    | enum e => rfl
    | oneof o => simp [isSettledNode] at hsettled
    | space name inner => exact hinner name inner rfl hflat.1 hsettled.1
    | service s => rfl

/-! ### Rearranged nodes -/

variable (keep : Member → Bool)

theorem leftOut_append (xs ys : List Node) :
    leftOut keep (xs ++ ys) = leftOut keep xs ++ leftOut keep ys := by
  rw [leftOut_eq_flatMap, leftOut_eq_flatMap, leftOut_eq_flatMap, List.flatMap_append]

variable (nodes : List Node)

theorem leftOut_inOrder : (leftOut keep (inOrder nodes)).Perm (leftOut keep nodes) := by
  rw [leftOut_eq_flatMap, leftOut_eq_flatMap]
  exact (inOrder_perm nodes).flatMap_right _

theorem leftOut_ordered : (leftOut keep (Writer.Cpp.ordered nodes)).Perm (leftOut keep nodes) := by
  rw [leftOut_eq_flatMap, leftOut_eq_flatMap]
  exact Writer.Cpp.flatMap_ordered (fun _ inner => leftOut_eq_flatMap keep inner) nodes

theorem leftOut_flatNodes : leftOut keep (Writer.Python.flatNodes nodes) = leftOut keep nodes := by
  induction nodes using nodesInduction with
  | nil => rw [Writer.Python.flatNodes]
  | cons d rest hinner hrest =>
    cases d with
    | space name inner =>
      rw [Writer.Python.flatNodes, leftOut_append, hinner name inner rfl, hrest]
      rfl
    | _ => simp only [Writer.Python.flatNodes, leftOut, hrest]

/-! ### Writers -/

namespace Writer

/-- A writer reports as many unsupported declarations as it leaves out members: those that
`keep` does not let through. -/
def LeavesOut (w : Writer) : Prop :=
  ∀ m, ((w.write m).2.withCode .unsupportedDeclaration).length = (leftOut keep m.nodes).length

theorem dropReports_unsupported :
    dropReports .unsupportedDeclaration keep nodes = (leftOut keep nodes).length := by
  rw [dropReports, share, if_pos rfl, Nat.mul_one]

theorem go_leavesOut : LeavesOut isField (Writer.go t) := fun m =>
  (go_reports isOther_unsupported t m).trans (dropReports_unsupported _ _)

theorem rust_leavesOut : LeavesOut isField (Writer.rust t) := fun m =>
  (rust_reports isOther_unsupported t m).trans (dropReports_unsupported _ _)

theorem typeScript_leavesOut : LeavesOut isSlot (Writer.typeScript t) := fun m =>
  (typeScript_reports isOther_unsupported t m).trans (dropReports_unsupported _ _)

theorem protobuf_leavesOut : LeavesOut isSlot (Writer.protobuf t) := fun m =>
  (protobuf_reports isOther_unsupported t m).trans (dropReports_unsupported _ _)

theorem cpp_leavesOut : LeavesOut isSlot (Writer.cpp t) := by
  intro m
  have hcode : share .dependencyCycle .unsupportedDeclaration = 0 := by decide
  rw [cpp_reports isOther_unsupported, hcode, Nat.mul_zero, Nat.zero_add, dropReports_unsupported]
  exact (leftOut_ordered isSlot m.nodes).length_eq

theorem python_leavesOut : LeavesOut isSlot (Writer.python t) := by
  intro m
  have hcode : share .dependencyCycle .unsupportedDeclaration = 0 := by decide
  rw [python_reports isOther_unsupported, hcode, ite_self, Nat.zero_add,
    dropReports_unsupported, (leftOut_inOrder _ _).length_eq, leftOut_flatNodes]

/-- A writer whose target asks for the passes that take away what it leaves out. -/
inductive AsksEnough (w : Writer) : Prop where
  | slots (h : LeavesOut isSlot w) (hflatten : w.target.flatten = true)
  | fields (h : LeavesOut isField w) (hflatten : w.target.flatten = true)
      (hlift : w.target.lift = true)

theorem AsksEnough.unsupported_eq_nil {w : Writer} (h : AsksEnough w) (m : Module) :
    (normalize w.target m).2.withCode .unsupportedDeclaration = [] ∧
      (w.write (normalize w.target m).1).2.withCode .unsupportedDeclaration = [] := by
  refine ⟨(normalize_only w.target m).withCode_eq_nil (by decide), ?_⟩
  rw [← List.length_eq_zero_iff]
  cases h with
  | slots h hflatten => rw [h, leftOut_of_flat (flat_normalize hflatten m), List.length_nil]
  | fields h hflatten hlift =>
    rw [h, leftOut_of_settled (flat_normalize hflatten m) (settled_normalize hlift m),
      List.length_nil]

/-! ### The built-in writers -/

/-- The keys of the languages that source text is written in, by the members their notation has
a form for. -/
def sourceKeys : List (String × (Member → Bool)) :=
  [("go", isField), ("rs", isField), ("h", isSlot), ("py", isSlot), ("ts", isSlot),
    ("proto", isSlot)]

end Writer

/-- With the built-in catalog every writer of source text is there, reports one unsupported
declaration for each member its notation has no form for, and has none to report about a module
in the normal form of its target; bringing a module there reports none either. -/
theorem builtin_writers_leave_nothing_out :
    ∃ languages, (Catalog.ofDraft Catalog.builtin >>= Languages.ofCatalog) = .ok languages ∧
      ∀ entry ∈ Writer.sourceKeys, ∃ w, languages.writers.lookup entry.1 = .ok w ∧
        Writer.LeavesOut entry.2 w ∧
          ∀ m, (normalize w.target m).2.withCode .unsupportedDeclaration = [] ∧
            (w.write (normalize w.target m).1).2.withCode .unsupportedDeclaration = [] := by
  rw [Catalog.ofDraft_builtin]
  refine ⟨_, rfl, ?_⟩
  simp only [Writer.sourceKeys, List.forall_mem_cons, List.not_mem_nil, false_imp_iff,
    implies_true, and_true]
  refine ⟨⟨_, rfl, Writer.go_leavesOut _, ?_⟩, ⟨_, rfl, Writer.rust_leavesOut _, ?_⟩,
    ⟨_, rfl, Writer.cpp_leavesOut _, ?_⟩, ⟨_, rfl, Writer.python_leavesOut _, ?_⟩,
    ⟨_, rfl, Writer.typeScript_leavesOut _, ?_⟩, ⟨_, rfl, Writer.protobuf_leavesOut _, ?_⟩⟩
  · exact (Writer.AsksEnough.fields (Writer.go_leavesOut _) rfl rfl).unsupported_eq_nil
  · exact (Writer.AsksEnough.fields (Writer.rust_leavesOut _) rfl rfl).unsupported_eq_nil
  · exact (Writer.AsksEnough.slots (Writer.cpp_leavesOut _) rfl).unsupported_eq_nil
  · exact (Writer.AsksEnough.slots (Writer.python_leavesOut _) rfl).unsupported_eq_nil
  · exact (Writer.AsksEnough.slots (Writer.typeScript_leavesOut _) rfl).unsupported_eq_nil
  · exact (Writer.AsksEnough.slots (Writer.protobuf_leavesOut _) rfl).unsupported_eq_nil

/-- A struct in a namespace that holds a struct, below which there is a oneof, and a oneof. -/
def parcel : Module :=
  { nodes := [.space "post" [.struct { name := "Parcel", members := [
      .struct { name := "Label", varName := "label", members := [
        .oneof { name := "code", alternatives := [{ name := "bar", type := .prim .string }] }] },
      .oneof { name := "goods", alternatives := [{ name := "letter", type := .prim .string }] },
      .field { name := "weight", type := .prim .int32 }] }]] }

theorem builtin_go_leaves_nothing_out_of_parcel :
    ∃ languages, (Catalog.ofDraft Catalog.builtin >>= Languages.ofCatalog) = .ok languages ∧
      ∃ w, languages.writers.lookup "go" = .ok w ∧
        ((w.write parcel).2.withCode .unsupportedDeclaration).length = 2 ∧
          (w.write (normalize w.target parcel).1).2.withCode .unsupportedDeclaration = [] := by
  obtain ⟨languages, hlanguages, hwriters⟩ := builtin_writers_leave_nothing_out
  obtain ⟨w, hw, hleaves, hnormal⟩ := hwriters ("go", isField) List.mem_cons_self
  exact ⟨languages, hlanguages, w, hw, hleaves parcel, (hnormal parcel).2⟩

end Schemata
