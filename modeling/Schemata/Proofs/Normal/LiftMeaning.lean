import Schemata.Proofs.Normal.Raising

/-!
Lifting keeps the meaning of every sum type. Each variant and each oneof of a struct
is now a reference, and the name it refers to belongs to exactly one declaration: an
enum in front of the nodes the struct stands among, with one value for each
alternative, in order, which carries what the alternative held.

The name of such an enum is free when it is given out, and names in use only grow, so
no declaration of the module and no enum made later can have it.
-/

namespace Schemata.Normal

open Naming List

/-! ### The correspondence -/

/-- Among `all`, the enum `e` is the only declaration of its name, and it stands in
`front`. -/
def Stands (all front : List Node) (e : Enum) : Prop :=
  Sole all e.name (.enum e) ∧ .enum e ∈ front

/-- The members of a struct with these namespaces, in order, against what lifting makes
of them. Whatever is no sum type stays as it was. -/
inductive MembersLifted (all front : List Node) : List String → List Member → List Member → Prop
  | nil (namespaces : List String) : MembersLifted all front namespaces [] []
  /-- A variant below indirections is an enum below the same indirections. -/
  | variant (name : String) (attributes : List Attribute) (layers : List Kind)
      (args : List TypeExpr) (len : Int64) {namespaces : List String} {enum : String}
      {ms ms' : List Member} (henum : Stands all front (variantEnum enum namespaces args))
      (hms : MembersLifted all front namespaces ms ms') :
      MembersLifted all front namespaces
        (.field ⟨name, layered layers (.generic .variant args len), attributes⟩ :: ms)
        (.field ⟨name, layered layers (.ref enum), attributes⟩ :: ms')
  /-- A struct inlined as the type of a field is lifted inside. -/
  | inline (name : String) (attributes : List Attribute) {namespaces : List String} {s : Struct}
      {members ms ms' : List Member}
      (hbody : MembersLifted all front s.namespaces s.members members)
      (hms : MembersLifted all front namespaces ms ms') :
      MembersLifted all front namespaces (.field ⟨name, .inline s, attributes⟩ :: ms)
        (.field ⟨name, .inline { s with members }, attributes⟩ :: ms')
  | plain (f : Field) {namespaces : List String} {ms ms' : List Member}
      (hvariant : ∀ layers args len, f.type ≠ layered layers (.generic .variant args len))
      (hinline : ∀ s, f.type ≠ .inline s) (hms : MembersLifted all front namespaces ms ms') :
      MembersLifted all front namespaces (.field f :: ms) (.field f :: ms')
  /-- A oneof is a field that refers to an enum. -/
  | oneof (o : Oneof) {namespaces : List String} {enum : String} {ms ms' : List Member}
      (henum : Stands all front (oneofEnum enum namespaces o))
      (hms : MembersLifted all front namespaces ms ms') :
      MembersLifted all front namespaces (.oneof o :: ms)
        (.field ⟨o.name, .ref enum, o.attributes⟩ :: ms')
  | enum (e : Enum) {namespaces : List String} {ms ms' : List Member}
      (hms : MembersLifted all front namespaces ms ms') :
      MembersLifted all front namespaces (.enum e :: ms) (.enum e :: ms')
  | struct {s : Struct} {namespaces : List String} {members ms ms' : List Member}
      (hbody : MembersLifted all front s.namespaces s.members members)
      (hms : MembersLifted all front namespaces ms ms') :
      MembersLifted all front namespaces (.struct s :: ms) (.struct { s with members } :: ms')

/-- The nodes of a list, in order, against what they become in place. `front` are the
enums before them; a namespace has its own before its nodes. -/
inductive EachLifted (all : List Node) : List Node → List Node → List Node → Prop
  | nil (front : List Node) : EachLifted all front [] []
  | struct {s : Struct} {front rest rest' : List Node} {members : List Member}
      (hbody : MembersLifted all front s.namespaces s.members members)
      (hrest : EachLifted all front rest rest') :
      EachLifted all front (.struct s :: rest) (.struct { s with members } :: rest')
  /-- A oneof of its own is an enum of the same name. -/
  | oneof (o : Oneof) {front rest rest' : List Node} (hrest : EachLifted all front rest rest') :
      EachLifted all front (.oneof o :: rest) (.enum (oneofEnum o.name [] o) :: rest')
  | enum (e : Enum) {front rest rest' : List Node} (hrest : EachLifted all front rest rest') :
      EachLifted all front (.enum e :: rest) (.enum e :: rest')
  | space (name : String) {front inside inner inner' rest rest' : List Node}
      (hinner : EachLifted all inside inner inner') (hrest : EachLifted all front rest rest') :
      EachLifted all front (.space name inner :: rest) (.space name (inside ++ inner') :: rest')
  | service (s : Service) {front rest rest' : List Node}
      (hrest : EachLifted all front rest rest') :
      EachLifted all front (.service s :: rest) (.service s :: rest')

/-- The sum types of a module are kept by another that has the same nodes, with lifted
bodies, behind the enums made for them. -/
def SumsKept (m m' : Module) : Prop :=
  ∃ front nodes, m'.nodes = front ++ nodes ∧
    EachLifted (declarations m'.nodes) front m.nodes nodes

/-! ### Lifting establishes it -/

section

variable {all front : List Node} {base : List String}

/-- Enums just made stand alone, since their names were not among those in use. -/
theorem Lifts.stands {l l' : Lifting} {own : List String} {stays : List Node} {made : List Enum}
    (h : Lifts l own stays made l') (hfresh : ∀ n, n ∉ base → (all.map Node.name).count n ≤ 1)
    (hbase : base ⊆ l.taken) (hall : front ⊆ all) (hfront : l'.lifted ⊆ front) :
    ∀ e ∈ made, Stands all front e := by
  intro e he
  obtain ⟨_, hmoves⟩ := h.moves
  have hmem : Node.enum e ∈ l'.supply.front := by
    rw [hmoves.front]
    exact mem_append_right _ (mem_map_of_mem he)
  have hname := hfresh e.name fun hn => h.unused e he (hbase hn)
  exact ⟨sole_of_count_le_one (hall (hfront hmem)) hname, hfront hmem⟩

theorem MembersRaised.lifted {namespaces : List String} {ms ms' : List Member} {made : List Enum}
    (h : MembersRaised namespaces ms ms' made) (hmade : ∀ e ∈ made, Stands all front e) :
    MembersLifted all front namespaces ms ms' := by
  induction h with
  | nil namespaces => exact .nil namespaces
  | variant name attributes layers args len _ _ ih =>
    obtain ⟨henum, hrest⟩ := forall_mem_cons.mp hmade
    exact .variant name attributes layers args len henum (ih hrest)
  | inline name attributes _ _ ihbody ih =>
    obtain ⟨hinner, hrest⟩ := forall_mem_append.mp hmade
    exact .inline name attributes (ihbody hinner) (ih hrest)
  | plain f hvariant hinline _ ih => exact .plain f hvariant hinline (ih hmade)
  | oneof o _ _ ih =>
    obtain ⟨henum, hrest⟩ := forall_mem_cons.mp hmade
    exact .oneof o henum (ih hrest)
  | enum e _ ih => exact .enum e (ih hmade)
  | struct _ _ ihbody ih =>
    obtain ⟨hinner, hrest⟩ := forall_mem_append.mp hmade
    exact .struct (ihbody hinner) (ih hrest)

end

theorem liftEach_lifted {all : List Node} {base : List String}
    (hfresh : ∀ n, n ∉ base → (all.map Node.name).count n ≤ 1) :
    ∀ (nodes front : List Node) (l : Lifting), base ⊆ l.taken → front ⊆ all →
      (liftEach nodes l).2.supply.front ⊆ front → declarations (liftEach nodes l).1 ⊆ all →
      EachLifted all front nodes (liftEach nodes l).1
  | [], front, l, _, _, _, _ => by
    rw [liftEach]
    exact .nil front
  | .struct s :: rest, front, l, hbase, hall, hfront, hstay => by
    rw [liftEach_struct] at hfront hstay ⊢
    obtain ⟨made, hrun, hbody⟩ := liftMembers_raised s.name s.namespaces s.members l
    have hbefore := front_subset (liftEach_moves rest _) hfront
    exact .struct (hbody.lifted (hrun.stands hfresh hbase hall hbefore))
      (liftEach_lifted hfresh rest front _ (taken_subset ⟨_, hrun.moves⟩ hbase) hall hfront
        (List.Subset.trans (subset_append_right _ _) hstay))
  | .oneof o :: rest, front, l, hbase, hall, hfront, hstay => by
    obtain ⟨l₁, hsupply, -, heq⟩ := liftEach_oneof o rest l
    rw [heq] at hfront hstay ⊢
    have htaken : base ⊆ l₁.supply.taken := by
      rw [hsupply]
      exact hbase
    exact .oneof o (liftEach_lifted hfresh rest front l₁ htaken hall hfront
      (List.Subset.trans (subset_append_right _ _) hstay))
  | .enum e :: rest, front, l, hbase, hall, hfront, hstay => by
    rw [liftEach_enum] at hfront hstay ⊢
    exact .enum e (liftEach_lifted hfresh rest front l hbase hall hfront
      (List.Subset.trans (subset_append_right _ _) hstay))
  | .space name inner :: rest, front, l, hbase, hall, hfront, hstay => by
    rw [liftEach_space] at hfront hstay ⊢
    let start : Lifting := { l with lifted := [] }
    let inside := liftEach inner start
    -- a namespace holds its own front, so both halves of it are among the declarations
    have hfrontOf : declarations (inside.2.lifted ++ inside.1) =
        inside.2.lifted ++ declarations inside.1 :=
      declarations_front (liftEach_moves inner start) _
    have hinner : inside.2.lifted ++ declarations inside.1 ⊆ all := by
      rw [← hfrontOf]
      exact List.Subset.trans (subset_append_left _ _) hstay
    refine .space name (liftEach_lifted hfresh inner inside.2.lifted start hbase ?_ ?_ ?_)
      (liftEach_lifted hfresh rest front
        { l with taken := inside.2.taken, diagnostics := inside.2.diagnostics } ?_ hall hfront
        (List.Subset.trans (subset_append_right _ _) hstay))
    · exact List.Subset.trans (subset_append_left _ _) hinner
    · exact List.Subset.refl _
    · exact List.Subset.trans (subset_append_right _ _) hinner
    · exact taken_subset (liftEach_moves inner start) hbase
  | .service s :: rest, front, l, hbase, hall, hfront, hstay => by
    rw [liftEach_service] at hfront hstay ⊢
    exact .service s (liftEach_lifted hfresh rest front l hbase hall hfront
      (List.Subset.trans (subset_append_right _ _) hstay))

/-! ### The whole module -/

/-- The declarations of a module are among the names in use, unless a struct has an empty
name. -/
theorem declaredNames_subset (nodes : List Node)
    (hroots : ∀ s, .struct s ∈ declarations nodes → s.name ≠ "") :
    declaredNames nodes ⊆ namesOfNodes nodes := by
  induction nodes using nodesInduction with
  | nil => simp [declaredNames, declarations]
  | cons d rest hinner hrest =>
    have hrest := hrest fun s hs => hroots s (mem_append_right _ hs)
    cases d with
    | struct s =>
      have hname := hroots s (by simp [declarations, declarationsOf])
      cases s
      grind [declaredNames, declarations, declarationsOf, namesOfNodes, namesOfStruct, Node.name]
    | space name inner =>
      have hinner := hinner name inner rfl fun s hs => hroots s (mem_append_left _ hs)
      grind [declaredNames, declarations, declarationsOf, namesOfNodes]
    | _ => grind [declaredNames, declarations, declarationsOf, namesOfNodes]

/-- The declarations of a lifted module: the enums made for its front, then those of its
own nodes. -/
theorem declarations_lift (m : Module) :
    declarations (lift m).1.nodes =
      (liftEach m.nodes { taken := namesOfNodes m.nodes }).2.lifted ++
        declarations (liftEach m.nodes { taken := namesOfNodes m.nodes }).1 :=
  declarations_front (liftEach_moves m.nodes { taken := namesOfNodes m.nodes }) _

/-- A name that was not in use before lifting is given to one declaration at most. -/
theorem lift_count_le_one (m : Module)
    (hused : declaredNames m.nodes ⊆ namesOfNodes m.nodes) {n : String}
    (hn : n ∉ namesOfNodes m.nodes) :
    ((declarations (lift m).1.nodes).map Node.name).count n ≤ 1 := by
  have hrun := liftEach_moves m.nodes { taken := namesOfNodes m.nodes }
  have hown : (declaredNames m.nodes).count n = 0 :=
    count_eq_zero_of_not_mem fun h => hn (hused h)
  exact count_front_le_one hrun hused (by omega)

/-- Lifting keeps the meaning of every sum type of a module whose structs have names. -/
theorem lift_sumsKept (m : Module)
    (hroots : ∀ s, .struct s ∈ declarations m.nodes → s.name ≠ "") :
    SumsKept m (lift m).1 := by
  have hused := declaredNames_subset m.nodes hroots
  have hfresh : ∀ n, n ∉ namesOfNodes m.nodes →
      ((declarations (lift m).1.nodes).map Node.name).count n ≤ 1 :=
    fun n hn => lift_count_le_one m hused hn
  refine ⟨_, _, rfl, liftEach_lifted hfresh m.nodes _ _ (List.Subset.refl _) ?_
    (List.Subset.refl _) ?_⟩
  · rw [declarations_lift]
    exact List.subset_append_left _ _
  · rw [declarations_lift]
    exact List.subset_append_right _ _

/-- A struct with an optional variant and a oneof whose enum names collide, in a namespace
beside a oneof of its own. -/
def paymentSums : Module where
  nodes := [.space "shop" [.struct { name := "Order", members := [
    .field ⟨"payment", .indirection .optional (.container .variant
      [.prim .string, .missing, .ref "Card"]), []⟩,
    .oneof ⟨"payment", [], [⟨"cash", .missing, []⟩, ⟨"card", .ref "Card", []⟩]⟩,
    .field ⟨"detail", .inline { members :=
      [.field ⟨"kind", .container .variant [.prim .bool], []⟩] }, []⟩] },
    .oneof ⟨"Choice", [], [⟨"yes", .missing, []⟩]⟩]]

theorem paymentSums_sumsKept :
    (∀ s, .struct s ∈ declarations paymentSums.nodes → s.name ≠ "") ∧
      SumsKept paymentSums (lift paymentSums).1 := by
  have hroots : ∀ s, .struct s ∈ declarations paymentSums.nodes → s.name ≠ "" := by
    intro s hs
    simp only [paymentSums, declarations, declarationsOf, List.append_nil, List.cons_append,
      List.nil_append, List.mem_cons, List.not_mem_nil, or_false, reduceCtorEq] at hs
    rw [Node.struct.inj hs]
    decide
  exact ⟨hroots, lift_sumsKept paymentSums hroots⟩

end Schemata.Normal
