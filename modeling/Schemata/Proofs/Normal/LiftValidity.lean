import Schemata.Proofs.Naming.Words
import Schemata.Proofs.Normal.Inventory
import Schemata.Proofs.Normal.Raising
import Schemata.Proofs.Schema.Soundness

/-!
When lifting keeps a module valid. A oneof may have two alternatives of one name, while the
values of an enum are distinct, so a oneof that becomes an enum breaks a rule it did not have to
keep before. Oneofs that lifting does not reach stay what they are. Nothing else can go wrong,
as long as something is left of the name of every member that gets an enum.
-/

namespace Schemata.Normal

open Naming Text List

variable {t : TypeExpr} {namespaces : List String} {made : List Enum}

/-! ### The oneofs that become enums -/

mutual

def liftedOfType : TypeExpr → List Oneof
  | .inline ⟨_, _, _, _, _, _, _, _, members⟩ => liftedOfMembers members
  | _ => []

def liftedOfMembers : List Member → List Oneof
  | [] => []
  | .field ⟨_, type, _⟩ :: ms => liftedOfType type ++ liftedOfMembers ms
  | .oneof o :: ms => o :: liftedOfMembers ms
  | .enum _ :: ms => liftedOfMembers ms
  | .struct ⟨_, _, _, _, _, _, _, _, members⟩ :: ms => liftedOfMembers members ++ liftedOfMembers ms

end

mutual

def liftedOfNode : Node → List Oneof
  | .struct s => liftedOfMembers s.members
  | .oneof o => [o]
  | .space _ inner => liftedOfNodes inner
  | .enum _ | .service _ => []

/-- The oneofs that lifting turns into enums: the nodes, and the members of the structs that are
nodes, members or the type of a field. -/
def liftedOfNodes : List Node → List Oneof
  | [] => []
  | d :: rest => liftedOfNode d ++ liftedOfNodes rest

end

theorem liftedOfType_inline (s : Struct) : liftedOfType (.inline s) = liftedOfMembers s.members := by
  cases s
  rw [liftedOfType]

theorem liftedOfType_of_ne_inline (ht : ∀ s, t ≠ .inline s) : liftedOfType t = [] := by
  cases t with
  | inline s => exact absurd rfl (ht s)
  | _ => rfl

theorem liftedOfMembers_struct (s : Struct) (ms : List Member) :
    liftedOfMembers (.struct s :: ms) = liftedOfMembers s.members ++ liftedOfMembers ms := by
  cases s
  rw [liftedOfMembers]

def DistinctAlternatives (o : Oneof) : Prop := (o.alternatives.map Alternative.name).Nodup

instance (o : Oneof) : Decidable (DistinctAlternatives o) := inferInstanceAs (Decidable (Nodup _))

/-! ### Names with something in them -/

/-- Whether a name has a letter or a digit in it. -/
def isSpelled (name : String) : Bool := name.toList.any fun c => isLetter c || isDigit c

/-- Whether a field or a oneof has a name with something in it. -/
def Part.isSpelled : Part → Bool
  | .field f => Normal.isSpelled f.name
  | .oneof o => Normal.isSpelled o.name
  | .enum _ | .member _ | .inline _ => true

theorem pascalCase_ne_empty {name : String} (hname : isSpelled name = true) :
    pascalCase name ≠ "" := by
  rw [isSpelled, any_eq_true] at hname
  obtain ⟨c, hc, hspelled⟩ := hname
  rw [Ne, pascalCase_eq_empty]
  intro hall
  have hsep := hall c hc
  simp only [isSeparator, Bool.or_eq_true, decide_eq_true_eq] at hsep
  obtain ((rfl | rfl) | rfl) | rfl := hsep <;> exact absurd hspelled (by decide)

/-! ### The enums are sound -/

theorem soundType_carried (h : t = .missing ∨ SoundType t) : SoundType (carried t) := by
  cases t with
  | missing => exact .inr rfl
  | _ => exact h.resolve_left nofun

theorem valueNames_variantEntries (ts : List TypeExpr) :
    valueNames (variantEntries ts) = (range ts.length).map (numbered "Variant") := by
  apply ext_getElem
  · simp [valueNames, variantEntries]
  · intro i _ _
    simp [valueNames, variantEntries, numbered]

theorem valueNames_alternativeEntries (alts : List Alternative) :
    valueNames (alternativeEntries alts) = alts.map Alternative.name := by
  apply map_mapIdx_eq
  intros
  rfl

theorem sound_variantEnum (name : String) (namespaces : List String) {args : List TypeExpr}
    (hargs : SoundTypes args) : SoundNode (.enum (variantEnum name namespaces args)) := by
  refine ⟨?_, soundValues_of_payloads ?_⟩
  · rw [variantEnum, valueNames_variantEntries]
    exact nodup_range.map (numbered_injective "Variant")
  · rw [variantEnum, payloads_variantEntries, forall_mem_map]
    intro t ht
    exact soundType_carried (.inr ((soundTypes_iff args).mp hargs t ht))

theorem sound_oneofEnum_iff (name : String) (namespaces : List String) {o : Oneof}
    (halts : SoundAlternatives o.alternatives) :
    SoundNode (.enum (oneofEnum name namespaces o)) ↔ DistinctAlternatives o := by
  have hpayloads : SoundValues (alternativeEntries o.alternatives) := by
    apply soundValues_of_payloads
    rw [payloads_alternativeEntries, forall_mem_map]
    intro a ha
    exact soundType_carried ((soundAlternatives_iff _).mp halts a ha)
  rw [SoundNode, oneofEnum, valueNames_alternativeEntries, and_iff_left hpayloads]
  rfl

/-! ### The members stay sound -/

theorem soundType_of_layered {layers : List Kind} (h : SoundType (layered layers t)) :
    SoundType t := by
  induction layers with
  | nil => exact h
  | cons k layers ih => exact ih h.2

/-- Another sound type can stand below the same indirections. -/
theorem soundType_layered {layers : List Kind} {u : TypeExpr} (h : SoundType (layered layers t))
    (hu : SoundType u) : SoundType (layered layers u) := by
  induction layers with
  | nil => exact hu
  | cons k layers ih => exact ⟨h.1, ih h.2⟩

theorem MembersRaised.slots_eq {ms ms' : List Member} (h : MembersRaised namespaces ms ms' made) :
    ms'.map Member.slot = ms.map Member.slot := by
  induction h with
  | nil => rfl
  | variant _ _ _ _ _ _ _ ih | inline _ _ _ _ _ ih | plain _ _ _ _ ih | oneof _ _ _ ih
  | enum _ _ ih | struct _ _ _ ih => exact congrArg (cons _) ih

/-- A struct is sound with members of the same slots. -/
theorem MembersRaised.sound_struct {s : Struct} {members : List Member}
    (h : MembersRaised namespaces s.members members made) (hsound : SoundStruct s)
    (hmembers : SoundMembers members) : SoundStruct { s with members } := by
  rw [soundStruct_iff] at hsound ⊢
  rw [slotNames, h.slots_eq]
  exact ⟨hsound.1, hsound.2.1, hmembers⟩

theorem liftedOfType_layered (layers : List Kind) (args : List TypeExpr) (len : Int64) :
    liftedOfType (layered layers (.generic .variant args len)) = [] := by
  cases layers <;> rfl

/-- Sound members are left, and enums that are sound if the oneofs among them are. -/
theorem MembersRaised.sound {ms ms' : List Member} (h : MembersRaised namespaces ms ms' made)
    (hsound : SoundMembers ms) (hnames : ∀ p ∈ partsOfMembers ms, p.isSpelled = true) :
    SoundMembers ms' ∧
      (SoundNodes (made.map .enum) ↔ ∀ o ∈ liftedOfMembers ms, DistinctAlternatives o) := by
  induction h with
  | nil => simp [SoundMembers, SoundNodes, liftedOfMembers]
  | @variant name _ layers args _ enum namespaces _ _ _ henum _ ih =>
    rw [partsOfMembers, forall_mem_append, forall_mem_cons] at hnames
    obtain ⟨hms, hmade⟩ := ih hsound.2 hnames.2.2
    have hvariant := sound_variantEnum enum namespaces (soundType_of_layered hsound.1).2
    refine ⟨⟨soundType_layered hsound.1 (henum (pascalCase_ne_empty hnames.2.1)), hms⟩, ?_⟩
    rw [map_cons, SoundNodes, and_iff_right hvariant, hmade, liftedOfMembers,
      liftedOfType_layered, nil_append]
  | inline name attributes hbody _ ihbody ih =>
    rw [partsOfMembers, partsOfType, partsOfStruct_eq, append_assoc, singleton_append,
      forall_mem_append, forall_mem_cons, forall_mem_cons] at hnames
    have hstruct := (soundStruct_iff _).mp hsound.1
    obtain ⟨hmembers, hinner⟩ := ihbody hstruct.2.2 hnames.1
    obtain ⟨hms, hmade⟩ := ih hsound.2 hnames.2.2.2
    refine ⟨⟨hbody.sound_struct hsound.1 hmembers, hms⟩, ?_⟩
    rw [map_append, soundNodes_append, hinner, hmade, liftedOfMembers, liftedOfType_inline,
      forall_mem_append]
  | plain f _ hinline _ ih =>
    cases f
    rw [partsOfMembers, forall_mem_append, forall_mem_cons] at hnames
    obtain ⟨hms, hmade⟩ := ih hsound.2 hnames.2.2
    refine ⟨⟨hsound.1, hms⟩, ?_⟩
    rw [hmade, liftedOfMembers, liftedOfType_of_ne_inline hinline, nil_append]
  | oneof o henum _ ih =>
    obtain ⟨name, attributes, alts⟩ := o
    rw [partsOfMembers, forall_mem_append, forall_mem_cons] at hnames
    obtain ⟨hms, hmade⟩ := ih hsound.2 hnames.2.2
    have halts := ((soundMember_oneof _).mp hsound.1).2
    refine ⟨⟨henum (pascalCase_ne_empty hnames.2.1), hms⟩, ?_⟩
    rw [map_cons, SoundNodes, sound_oneofEnum_iff _ _ halts, hmade, liftedOfMembers,
      forall_mem_cons]
  | enum e _ ih =>
    rw [partsOfMembers_enum, forall_mem_append, forall_mem_cons] at hnames
    obtain ⟨hms, hmade⟩ := ih hsound.2 hnames.2.2
    exact ⟨⟨hsound.1, hms⟩, hmade⟩
  | struct hbody _ ihbody ih =>
    rw [partsOfMembers, partsOfStruct_eq, forall_mem_append, forall_mem_cons] at hnames
    have hstruct := (soundStruct_iff _).mp hsound.1
    obtain ⟨hmembers, hinner⟩ := ihbody hstruct.2.2 hnames.1
    obtain ⟨hms, hmade⟩ := ih hsound.2 hnames.2.2
    refine ⟨⟨hbody.sound_struct hsound.1 hmembers, hms⟩, ?_⟩
    rw [map_append, soundNodes_append, hinner, hmade, liftedOfMembers_struct, forall_mem_append]

/-! ### The whole module -/

theorem NodesRaised.sound_iff {nodes stays : List Node} (h : NodesRaised nodes stays made)
    (hsound : SoundNodes nodes) (hnames : ∀ p ∈ partsOfNodes nodes, p.isSpelled = true) :
    SoundNodes (made.map .enum) ∧ SoundNodes stays ↔
      ∀ o ∈ liftedOfNodes nodes, DistinctAlternatives o := by
  induction h with
  | nil => simp [SoundNodes, liftedOfNodes]
  | @struct s members _ _ _ _ hbody _ ih =>
    rw [partsOfNodes, forall_mem_append] at hnames
    have hstruct := (soundStruct_iff s).mp hsound.1
    obtain ⟨hmembers, hinner⟩ := hbody.sound hstruct.2.2 hnames.1
    have hroot : SoundNode (.struct { s with members }) := hbody.sound_struct hsound.1 hmembers
    rw [map_append, soundNodes_append, SoundNodes, liftedOfNodes, forall_mem_append,
      and_and_and_comm, and_iff_left hroot, hinner, ih hsound.2 hnames.2, liftedOfNode]
  | oneof o _ ih =>
    rw [partsOfNodes, forall_mem_append] at hnames
    rw [SoundNodes, liftedOfNodes, forall_mem_append, and_left_comm,
      sound_oneofEnum_iff _ _ hsound.1.2, ih hsound.2 hnames.2, liftedOfNode, forall_mem_singleton]
  | enum e _ ih | service e _ ih =>
    rw [partsOfNodes, forall_mem_append] at hnames
    rw [SoundNodes, and_iff_right hsound.1]
    exact ih hsound.2 hnames.2
  | space name _ _ ihinner ih =>
    rw [partsOfNodes, forall_mem_append] at hnames
    rw [SoundNodes, SoundNode, soundNodes_append, liftedOfNodes, forall_mem_append,
      and_left_comm, ihinner hsound.1 hnames.1, ih hsound.2 hnames.2, liftedOfNode]

/-- A valid module in which every field and every oneof has a letter or a digit in its name stays
valid when it is lifted exactly if no oneof that becomes an enum names two alternatives alike. -/
theorem lift_valid_iff (m : Module) (hvalid : m.issues = [])
    (hnames : ∀ p ∈ partsOfNodes m.nodes, p.isSpelled = true) :
    (lift m).1.issues = [] ↔ ∀ o ∈ liftedOfNodes m.nodes, DistinctAlternatives o := by
  rw [issues_eq_nil_iff] at hvalid ⊢
  obtain ⟨stays, made, heq, hnodes⟩ := lift_raised m
  rw [heq, soundNodes_append, hnodes.sound_iff hvalid hnames]

/-- An order with a price and a payment; the payment has this as its second alternative. The
lines are out of reach. -/
def orderWithPayment (second : String) : Module where
  nodes := [.struct { name := "Order", members := [
    .field ⟨"price", .indirection .optional (.container .variant [.prim .int64, .prim .string]), []⟩,
    .oneof ⟨"payment", [], [⟨"card", .prim .string, []⟩, ⟨second, .missing, []⟩]⟩,
    .field ⟨"lines", .container .list [.inline { isAnonymous := true, members := [
      .oneof ⟨"item", [], [⟨"sku", .missing, []⟩, ⟨"sku", .missing, []⟩]⟩] }], []⟩] }]

theorem orderWithPayment_valid :
    (orderWithPayment "cash").issues = [] ∧
      (∀ p ∈ partsOfNodes (orderWithPayment "cash").nodes, p.isSpelled = true) ∧
      (lift (orderWithPayment "cash")).1.issues = [] := by
  have hvalid : (orderWithPayment "cash").issues = [] := by cbv
  have hnames : ∀ p ∈ partsOfNodes (orderWithPayment "cash").nodes, p.isSpelled = true := by decide
  exact ⟨hvalid, hnames, (lift_valid_iff _ hvalid hnames).mpr (by decide)⟩

/-- The enum of the payment has a value twice. -/
theorem orderWithPayment_invalid :
    (orderWithPayment "card").issues = [] ∧
      (∀ p ∈ partsOfNodes (orderWithPayment "card").nodes, p.isSpelled = true) ∧
      (lift (orderWithPayment "card")).1.issues = [⟨"Payment.card", .duplicateValue⟩] := by
  have htaken : namesOfNodes (orderWithPayment "card").nodes = ["Order"] := by cbv
  have hlifted : (lift (orderWithPayment "card")).1 = { nodes := [
      .enum (variantEnum "Price" [] [.prim .int64, .prim .string]),
      .enum (oneofEnum "Payment" []
        ⟨"payment", [], [⟨"card", .prim .string, []⟩, ⟨"card", .missing, []⟩]⟩),
      .struct { name := "Order", members := [
        .field ⟨"price", .indirection .optional (.ref "Price"), []⟩,
        .field ⟨"payment", .ref "Payment", []⟩,
        .field ⟨"lines", .container .list [.inline { isAnonymous := true, members := [
          .oneof ⟨"item", [], [⟨"sku", .missing, []⟩, ⟨"sku", .missing, []⟩]⟩] }], []⟩] }] } := by
    simp only [lift, htaken]
    simp only [orderWithPayment, liftEach_struct, liftEach]
    rfl
  refine ⟨by cbv, by decide, ?_⟩
  rw [hlifted]
  cbv

end Schemata.Normal
