import Schemata.Proofs.Normal.BackwardReferences
import Schemata.Proofs.Normal.Raising

/-!
What lifting does to references. The enums it makes are declared where they are needed, so no
reference dangles that did not before. But their names are kept apart from declared names only:
a reference to a type that is declared elsewhere can have the name of such an enum, and then it
refers to the enum from now on. These are all that change.
-/

namespace Schemata.Normal

open List

variable {nodes stays : List Node} {made : List Enum}

/-! ### The names that are added -/

/-- What a list of nodes has in front of as many nodes as there were before. -/
def frontOf (old new : List Node) : List Node := new.take (new.length - old.length)

def behindFront (old new : List Node) : List Node := new.drop (new.length - old.length)

mutual

def addedInNode (path : String) : Node → Node → List String
  | .space name inner, .space _ inner' =>
    Schemata.declaredNames (joinPath path name) (frontOf inner inner') ++
      addedInNodes (joinPath path name) inner (behindFront inner inner')
  | _, _ => []

/-- The names added inside the namespaces of a list, node by node. -/
def addedInNodes (path : String) : List Node → List Node → List String
  | d :: rest, d' :: rest' => addedInNode path d d' ++ addedInNodes path rest rest'
  | _, _ => []

end

/-- The names declared in front of the nodes that were there before, each plain and with its
namespace path, in the list and in the namespaces at any depth. -/
def addedNames (path : String) (old new : List Node) : List String :=
  Schemata.declaredNames path (frontOf old new) ++ addedInNodes path old (behindFront old new)

example : addedNames "" [.space "shop" [.struct { name := "Order" }]]
    [.space "shop" [.enum { name := "Payment" }, .struct { name := "Order" }]] =
      ["Payment", "shop.Payment"] := by cbv

theorem NodesRaised.length_eq (h : NodesRaised nodes stays made) : stays.length = nodes.length := by
  induction h with
  | nil => rfl
  | struct _ _ ih | oneof _ _ ih | enum _ _ ih | space _ _ _ _ ih | service _ _ ih =>
    rw [length_cons, length_cons, ih]

theorem NodesRaised.front_eq (h : NodesRaised nodes stays made) :
    frontOf nodes (made.map .enum ++ stays) = made.map .enum ∧
      behindFront nodes (made.map .enum ++ stays) = stays := by
  have hlength : (made.map Node.enum ++ stays).length - nodes.length =
      (made.map Node.enum).length := by
    rw [length_append, h.length_eq, Nat.add_sub_cancel]
  rw [frontOf, behindFront, hlength]
  exact ⟨take_left, drop_left⟩

/-- The names added to a list that was lifted. -/
theorem NodesRaised.addedNames_eq (h : NodesRaised nodes stays made) (path : String) :
    addedNames path nodes (made.map .enum ++ stays) =
      Schemata.declaredNames path (made.map .enum) ++ addedInNodes path nodes stays := by
  rw [addedNames, h.front_eq.1, h.front_eq.2]

theorem NodesRaised.mem_declared (h : NodesRaised nodes stays made) (path n : String) :
    n ∈ Schemata.declaredNames path stays ↔
      n ∈ Schemata.declaredNames path nodes ∨ n ∈ addedInNodes path nodes stays := by
  induction h generalizing path with
  | nil => simp [Schemata.declaredNames, addedInNodes]
  | struct _ _ ih | oneof _ _ ih | enum _ _ ih | service _ _ ih =>
    simp [Schemata.declaredNames, Node.name, oneofEnum, addedInNodes, addedInNode, ih path,
      or_assoc]
  | space name hinner _ ihinner ih =>
    simp only [Schemata.declaredNames, addedInNodes, addedInNode, declaredNames_path_append,
      hinner.front_eq.1, hinner.front_eq.2, mem_append, ihinner, ih path]
    tauto

/-! ### The references that are added -/

theorem refsOfType_layered (layers : List Kind) (t : TypeExpr) :
    refsOfType (layered layers t) = refsOfType t := by
  induction layers with
  | nil => rfl
  | cons k layers ih => exact ih

theorem refsOfType_carried (t : TypeExpr) : refsOfType (carried t) = refsOfType t := by
  cases t <;> rfl

theorem refsOfValues_variantEntries (args : List TypeExpr) :
    refsOfValues (variantEntries args) = refsOfTypes args := by
  rw [refsOfValues_eq, payloads_variantEntries]
  induction args with
  | nil => rfl
  | cons t args ih => rw [map_cons, flatMap_cons, ih, refsOfType_carried, refsOfTypes]

theorem refsOfValues_alternativeEntries (alts : List Alternative) :
    refsOfValues (alternativeEntries alts) = refsOfAlternatives alts := by
  rw [refsOfValues_eq, payloads_alternativeEntries]
  induction alts with
  | nil => rfl
  | cons a alts ih =>
    rw [map_cons, flatMap_cons, ih, refsOfType_carried]
    cases a
    rw [refsOfAlternatives]

/-- What was referred to before is referred to by what is left in place or by what was made of
it, and beside that the fresh names are. -/
def Redirects (left made before fresh : List String) : Prop :=
  (left ++ made).Perm (before ++ fresh)

namespace Redirects

variable {left₁ left₂ made₁ made₂ before₁ before₂ fresh₁ fresh₂ : List String}

theorem unchanged (names : List String) : Redirects names [] names [] := .refl _

/-- Some names go along, and the name of what they go to takes their place. -/
theorem replace (name : String) (names : List String) : Redirects [name] names names [name] :=
  perm_append_comm

theorem append (first : Redirects left₁ made₁ before₁ fresh₁)
    (second : Redirects left₂ made₂ before₂ fresh₂) :
    Redirects (left₁ ++ left₂) (made₁ ++ made₂) (before₁ ++ before₂) (fresh₁ ++ fresh₂) := by
  have swap (a b c d : List String) : (a ++ b ++ (c ++ d)).Perm (a ++ c ++ (b ++ d)) := by
    simp only [append_assoc]
    exact (perm_append_comm_assoc b c d).append_left a
  exact (swap ..).trans ((Perm.append first second).trans (swap ..))

/-- What was made is put in front of what is left. -/
theorem join (h : Redirects left₁ made₁ before₁ fresh₁) :
    Redirects (made₁ ++ left₁) [] before₁ fresh₁ := by
  rw [Redirects, append_nil]
  exact perm_append_comm.trans h

end Redirects

theorem MembersRaised.redirects {namespaces : List String} {ms ms' : List Member}
    (h : MembersRaised namespaces ms ms' made) :
    Redirects (refsOfMembers ms') (refsOfNodes (made.map .enum)) (refsOfMembers ms)
      (made.map Enum.name) := by
  induction h with
  | nil => exact .unchanged []
  | @variant name attributes layers args len enum _ _ _ _ _ _ ih =>
    simp only [refsOfMembers, refsOfMember, refsOfType_layered, TypeExpr.ref, refsOfType,
      map_cons, refsOfNodes, refsOfNode, variantEnum, refsOfValues_variantEntries]
    exact (Redirects.replace enum (refsOfTypes args)).append ih
  | inline name attributes _ _ ihbody ih =>
    simp only [refsOfMembers, refsOfMember, refsOfType, refsOfStruct_eq, map_append,
      refsOfNodes_append]
    exact ihbody.append ih
  | plain f _ _ _ ih => exact (Redirects.unchanged (refsOfMember (.field f))).append ih
  | @oneof o enum _ _ _ _ _ _ ih =>
    cases o
    simp only [refsOfMembers, refsOfMember, TypeExpr.ref, refsOfType, map_cons, refsOfNodes,
      refsOfNode, oneofEnum, refsOfValues_alternativeEntries]
    exact (Redirects.replace enum _).append ih
  | enum e _ ih => exact (Redirects.unchanged (refsOfMember (.enum e))).append ih
  | struct _ _ ihbody ih =>
    simp only [refsOfMembers, refsOfMember, refsOfStruct_eq, map_append, refsOfNodes_append]
    exact ihbody.append ih

theorem names_subset_declared (path : String) (made : List Enum) :
    made.map Enum.name ⊆ Schemata.declaredNames path (made.map .enum) := by
  induction made with
  | nil => exact nil_subset _
  | cons e made ih =>
    simp only [map_cons, Schemata.declaredNames]
    exact cons_subset_cons _ (subset_cons_of_subset _ ih)

/-- References are kept, and the fresh ones have a name that was added. -/
theorem NodesRaised.redirects (h : NodesRaised nodes stays made) :
    ∃ fresh, Redirects (refsOfNodes stays) (refsOfNodes (made.map .enum)) (refsOfNodes nodes) fresh ∧
      ∀ path, fresh ⊆ Schemata.declaredNames path (made.map .enum) ++ addedInNodes path nodes stays := by
  induction h with
  | nil => exact ⟨[], .unchanged [], fun _ => nil_subset _⟩
  | @struct _ _ _ _ inner _ hbody _ ih =>
    obtain ⟨fresh, hfresh, hnames⟩ := ih
    refine ⟨inner.map Enum.name ++ fresh, ?_, ?_⟩
    · rw [map_append, refsOfNodes_append]
      exact hbody.redirects.append hfresh
    · intro path
      rw [map_append, declaredNames_path_append, append_assoc]
      exact append_subset.mpr
        ⟨subset_append_of_subset_left _ (names_subset_declared path inner),
          subset_append_of_subset_right _ (hnames path)⟩
  | oneof o _ ih =>
    obtain ⟨fresh, hfresh, hnames⟩ := ih
    refine ⟨fresh, ?_, hnames⟩
    rw [refsOfNodes, refsOfNode, oneofEnum, refsOfValues_alternativeEntries]
    exact (Redirects.unchanged _).append hfresh
  | enum e _ ih | service e _ ih =>
    obtain ⟨fresh, hfresh, hnames⟩ := ih
    exact ⟨fresh, (Redirects.unchanged _).append hfresh, hnames⟩
  | @space name inner inside _ _ front made hinner _ ihinner ih =>
    obtain ⟨within, hwithin, hfront⟩ := ihinner
    obtain ⟨fresh, hfresh, hnames⟩ := ih
    refine ⟨within ++ fresh, ?_, ?_⟩
    · rw [refsOfNodes, refsOfNode, refsOfNodes_append]
      exact hwithin.join.append hfresh
    · intro path n hn
      have hin := @hfront (joinPath path name) n
      have hout := @hnames path n
      rw [addedInNodes, addedInNode, hinner.front_eq.1, hinner.front_eq.2]
      simp only [mem_append] at hn hin hout ⊢
      rcases hn with hn | hn
      · exact .inr (.inl (hin hn))
      · exact (hout hn).imp_right .inr

/-! ### The whole module -/

/-- Lifting leaves no reference dangling that did not dangle before, and every reference that did
still does, unless it has the name of an enum that was put in front of a list. -/
theorem lift_unresolved_eq (m : Module) :
    (lift m).1.unresolved =
      m.unresolved.filter (· ∉ addedNames "" m.nodes (lift m).1.nodes) := by
  refine List.Pairwise.eq_of_mem_iff (pairwise_unresolved _) ((pairwise_unresolved m).filter _) ?_
  intro n
  obtain ⟨stays, made, heq, hnodes⟩ := lift_raised m
  obtain ⟨fresh, hrefs, hfresh⟩ := hnodes.redirects
  have hadded := hnodes.addedNames_eq ""
  rw [← heq] at hadded
  have hdeclared : n ∈ Schemata.declaredNames "" (lift m).1.nodes ↔
      n ∈ Schemata.declaredNames "" m.nodes ∨ n ∈ addedNames "" m.nodes (lift m).1.nodes := by
    rw [hadded, heq, declaredNames_path_append, List.mem_append, hnodes.mem_declared, List.mem_append]
    exact or_left_comm
  have hreferred : n ∈ refsOfNodes (lift m).1.nodes ↔ n ∈ refsOfNodes m.nodes ∨ n ∈ fresh := by
    rw [heq, refsOfNodes_append, ← List.mem_append, ← hrefs.mem_iff, List.mem_append, List.mem_append,
      or_comm]
  rw [mem_unresolved, List.mem_filter, mem_unresolved, references_eq, references_eq, hdeclared,
    hreferred, decide_eq_true_eq]
  constructor
  · rintro ⟨hn, hnot⟩
    obtain ⟨hnone, hnew⟩ := not_or.mp hnot
    -- a fresh reference is to an enum that was added
    have hold := hn.resolve_right fun h => hnew (hadded ▸ hfresh "" h)
    exact ⟨⟨hold, hnone⟩, hnew⟩
  · rintro ⟨⟨hn, hnone⟩, hnew⟩
    exact ⟨.inl hn, not_or.mpr ⟨hnone, hnew⟩⟩

/-- An order with a receipt that is declared elsewhere and a payment of its own. -/
def orderWithReceipt : Module where
  nodes := [.struct { name := "Order", members := [
    .field ⟨"receipt", .ref "Payment", []⟩,
    .oneof ⟨"payment", [], [⟨"card", .prim .string, []⟩]⟩] }]

/-- The receipt is the enum of the payment from now on. -/
theorem orderWithReceipt_captured :
    orderWithReceipt.unresolved = ["Payment"] ∧ (lift orderWithReceipt).1.unresolved = [] := by
  have htaken : namesOfNodes orderWithReceipt.nodes = ["Order"] := by cbv
  have hlifted : (lift orderWithReceipt).1.nodes = [
      .enum (oneofEnum "Payment" [] ⟨"payment", [], [⟨"card", .prim .string, []⟩]⟩),
      .struct { name := "Order", members := [
        .field ⟨"receipt", .ref "Payment", []⟩, .field ⟨"payment", .ref "Payment", []⟩] }] := by
    simp only [lift, htaken]
    simp only [orderWithReceipt, liftEach_struct, liftEach]
    rfl
  have hrefs : orderWithReceipt.references = ["Payment"] := by
    rw [references_eq]
    rfl
  have hdeclared : Schemata.declaredNames "" orderWithReceipt.nodes = ["Order", "Order"] := by cbv
  have hrefs' : (lift orderWithReceipt).1.references = ["Payment", "Payment"] := by
    rw [references_eq, hlifted]
    rfl
  have hdeclared' : Schemata.declaredNames "" (lift orderWithReceipt).1.nodes =
      ["Payment", "Payment", "Order", "Order"] := by
    rw [hlifted]
    cbv
  rw [Module.unresolved, Module.unresolved, hrefs, hdeclared, hrefs', hdeclared']
  constructor
  · simp
    rfl
  · simp
    rfl

end Schemata.Normal
