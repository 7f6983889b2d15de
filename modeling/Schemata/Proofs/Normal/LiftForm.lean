import Schemata.Proofs.Normal.Inventory
import Schemata.Proofs.Normal.LiftMeaning

/-!
The form lifting reaches. Lifting goes into the members of structs and into structs inlined
directly as the type of a field, and leaves payloads, the arguments of containers and what
stands below an indirection alone. What it has been through is settled: where it goes there is
no sum type any more, so that a second run does nothing and reports nothing.

In a flat module nothing is out of reach, and lifting keeps a module flat, so a module that is
flattened first has no sum type left anywhere.
-/

namespace Schemata.Normal

open List

variable {t : TypeExpr} {made : List Enum}

/-! ### Settled -/

mutual

def isSettledType : TypeExpr → Bool
  | .inline ⟨_, _, _, _, _, _, _, _, members⟩ => areSettledMembers members
  | t => (variantIn? t).isNone

def areSettledMembers : List Member → Bool
  | [] => true
  | .field ⟨_, type, _⟩ :: ms => isSettledType type && areSettledMembers ms
  | .oneof _ :: _ => false
  | .enum _ :: ms => areSettledMembers ms
  | .struct ⟨_, _, _, _, _, _, _, _, members⟩ :: ms =>
    areSettledMembers members && areSettledMembers ms

end

mutual

def isSettledNode : Node → Bool
  | .struct s => areSettledMembers s.members
  | .enum _ | .service _ => true
  | .oneof _ => false
  | .space _ inner => areSettledNodes inner

/-- Whether lifting has nothing to do in a list of nodes. -/
def areSettledNodes : List Node → Bool
  | [] => true
  | d :: rest => isSettledNode d && areSettledNodes rest

end

example : areSettledNodes paymentSums.nodes = false := by decide

theorem variantIn?_eq_none :
    variantIn? t = none ↔ ∀ layers args len, t ≠ layered layers (.generic .variant args len) := by
  constructor
  · rintro hnone layers args len rfl
    have hsome := variantIn?_layered layers args len
    rw [hnone] at hsome
    exact absurd hsome (by decide)
  · intro hall
    cases h : variantIn? t with
    | none => rfl
    | some found =>
      obtain ⟨layers, len, ht, -⟩ := variantIn?_eq_some h
      exact absurd ht (hall layers found.1 len)

theorem isSettledType_of_ne_inline (ht : ∀ s, t ≠ .inline s) :
    isSettledType t = (variantIn? t).isNone := by
  cases t with
  | inline s => exact absurd rfl (ht s)
  | _ => rfl

theorem variantIn?_of_settled (hsettled : isSettledType t = true) : variantIn? t = none := by
  cases t with
  | inline s => rfl
  | _ => exact Option.isNone_iff_eq_none.mp hsettled

@[simp] theorem areSettledNodes_append (xs ys : List Node) :
    areSettledNodes (xs ++ ys) = (areSettledNodes xs && areSettledNodes ys) := by
  induction xs with
  | nil => rfl
  | cons d xs ih => simp [areSettledNodes, ih, Bool.and_assoc]

theorem areSettledNodes_enums (es : List Enum) : areSettledNodes (es.map .enum) = true := by
  induction es with
  | nil => rfl
  | cons e es ih => exact ih

/-! ### What is settled stays as it is -/

mutual

theorem liftMembers_of_settled (owner : String) (namespaces : List String) :
    ∀ (ms : List Member) (l : Lifting), areSettledMembers ms = true →
      liftMembers owner namespaces ms l = (ms, l)
  | [], _, _ => rfl
  | .field ⟨name, t, attributes⟩ :: ms, l, hsettled => by
    rw [areSettledMembers, Bool.and_eq_true] at hsettled
    have hvariant : liftVariant owner namespaces name t l = (t, l) := by
      rw [liftVariant, variantIn?_of_settled hsettled.1]
    have hms := liftMembers_of_settled owner namespaces ms l hsettled.2
    simp only [liftMembers_field, liftInline_of_settled t l hsettled.1, hvariant, hms]
  | .oneof _ :: _, _, hsettled => absurd hsettled (by simp [areSettledMembers])
  | .enum e :: ms, l, hsettled => by
    rw [liftMembers, liftMembers_of_settled owner namespaces ms l hsettled]
  | .struct ⟨own, spaces, _, _, _, _, _, _, members⟩ :: ms, l, hsettled => by
    rw [areSettledMembers, Bool.and_eq_true] at hsettled
    have hbody := liftMembers_of_settled own spaces members l hsettled.1
    have hms := liftMembers_of_settled owner namespaces ms l hsettled.2
    simp only [liftMembers, hbody, hms]

theorem liftInline_of_settled : ∀ (t : TypeExpr) (l : Lifting), isSettledType t = true →
    liftInline t l = (t, l)
  | .inline ⟨own, spaces, _, _, _, _, _, _, members⟩, l, hsettled => by
    rw [liftInline, liftMembers_of_settled own spaces members l hsettled]
  | .missing, _, _ => rfl
  | .primitive _ _, _, _ => rfl
  | .reference _ _, _, _ => rfl
  | .indirection _ _, _, _ => rfl
  | .generic _ _ _, _, _ => rfl
  | .emptyInline, _, _ => rfl

end

theorem liftEach_of_settled : ∀ (nodes : List Node) (l : Lifting), areSettledNodes nodes = true →
    liftEach nodes l = (nodes, l)
  | [], _, _ => by rw [liftEach]
  | .struct s :: rest, l, hsettled => by
    rw [areSettledNodes, Bool.and_eq_true] at hsettled
    have hbody := liftMembers_of_settled s.name s.namespaces s.members l hsettled.1
    cases s
    simp only [liftEach_struct, hbody, liftEach_of_settled rest l hsettled.2]
  | .oneof _ :: _, _, hsettled => absurd hsettled (by simp [areSettledNodes, isSettledNode])
  | .enum e :: rest, l, hsettled => by
    rw [liftEach_enum, liftEach_of_settled rest l hsettled]
  | .space name inner :: rest, l, hsettled => by
    rw [areSettledNodes, Bool.and_eq_true] at hsettled
    have hinner := liftEach_of_settled inner { l with lifted := [] } hsettled.1
    simp [liftEach_space, hinner, liftEach_of_settled rest l hsettled.2]
  | .service s :: rest, l, hsettled => by
    rw [liftEach_service, liftEach_of_settled rest l hsettled]

/-- Nothing changes in a module that is settled, and nothing is reported. -/
theorem lift_of_settled {m : Module} (hsettled : areSettledNodes m.nodes = true) :
    lift m = (m, {}) := by
  simp [lift, liftEach_of_settled m.nodes _ hsettled]

/-! ### What is lifted is settled -/

theorem isSettledType_layered_ref (layers : List Kind) (enum : String) :
    isSettledType (layered layers (.ref enum)) = true := by
  have hnone : variantIn? (layered layers (.ref enum)) = none := by
    induction layers with
    | nil => rfl
    | cons k layers ih =>
      change (variantIn? (layered layers (.ref enum))).map _ = none
      rw [ih]
      rfl
  rw [isSettledType_of_ne_inline, hnone]
  · rfl
  · intro s h
    cases layers <;> cases h

theorem MembersRaised.settled {namespaces : List String} {ms ms' : List Member}
    (h : MembersRaised namespaces ms ms' made) : areSettledMembers ms' = true := by
  induction h with
  | nil => rfl
  | variant _ _ layers _ _ _ _ ih =>
    rw [areSettledMembers, isSettledType_layered_ref, ih]
    rfl
  | inline _ _ _ _ ihbody ih =>
    rw [areSettledMembers, isSettledType, ihbody, ih]
    rfl
  | plain f hvariant hinline _ ih =>
    cases f
    rw [areSettledMembers, isSettledType_of_ne_inline hinline, variantIn?_eq_none.mpr hvariant, ih]
    rfl
  | oneof _ _ _ ih =>
    rw [areSettledMembers, ih]
    rfl
  | enum _ _ ih => exact ih
  | struct _ _ ihbody ih =>
    rw [areSettledMembers, ihbody, ih]
    rfl

theorem NodesRaised.settled {nodes stays : List Node} (h : NodesRaised nodes stays made) :
    areSettledNodes stays = true := by
  induction h with
  | nil => rfl
  | struct hbody _ ih =>
    rw [areSettledNodes, isSettledNode, hbody.settled, ih]
    rfl
  | oneof _ _ ih => exact ih
  | enum _ _ ih => exact ih
  | space _ _ _ ihinner ih =>
    rw [areSettledNodes, isSettledNode, areSettledNodes_append, areSettledNodes_enums, ihinner, ih]
    rfl
  | service _ _ ih => exact ih

theorem settled_lift (m : Module) : areSettledNodes (lift m).1.nodes = true := by
  obtain ⟨stays, made, heq, hnodes⟩ := lift_raised m
  rw [heq, areSettledNodes_append, areSettledNodes_enums, hnodes.settled]
  rfl

/-! ### Lifting keeps a module flat -/

theorem isFlatType_layered (layers : List Kind) (t : TypeExpr) :
    isFlatType (layered layers t) = isFlatType t := by
  induction layers with
  | nil => rfl
  | cons k layers ih => exact ih

theorem isFlatType_carried (t : TypeExpr) : isFlatType (carried t) = isFlatType t := by
  cases t <;> rfl

theorem areFlatTypes_eq_all (ts : List TypeExpr) : areFlatTypes ts = ts.all isFlatType := by
  induction ts with
  | nil => rfl
  | cons t ts ih => rw [areFlatTypes, ih, all_cons]

theorem areFlatValues_eq_all (values : List EnumValue) :
    areFlatValues values = (values.map EnumValue.payload).all isFlatType := by
  rw [all_map]
  rfl

theorem areFlatValues_variantEntries (args : List TypeExpr) :
    areFlatValues (variantEntries args) = areFlatTypes args := by
  rw [areFlatValues_eq_all, payloads_variantEntries, all_map, areFlatTypes_eq_all]
  exact congrArg args.all (funext isFlatType_carried)

theorem areFlatValues_alternativeEntries (alts : List Alternative) :
    areFlatValues (alternativeEntries alts) = areFlatAlternatives alts := by
  rw [areFlatValues_eq_all, payloads_alternativeEntries, all_map]
  exact congrArg alts.all (funext fun a => isFlatType_carried a.type)

theorem MembersRaised.flat {namespaces : List String} {ms ms' : List Member}
    (h : MembersRaised namespaces ms ms' made) (hflat : ms.all isFlatMember = true) :
    ms'.all isFlatMember = true ∧ areFlatNodes (made.map .enum) = true := by
  induction h with
  | nil => exact ⟨rfl, rfl⟩
  | variant name attributes layers args len _ _ ih =>
    rw [all_cons, Bool.and_eq_true, isFlatMember, isFlatType_layered] at hflat
    obtain ⟨hms, hmade⟩ := ih hflat.2
    have hvalues := (areFlatValues_variantEntries args).trans hflat.1
    rw [all_cons, isFlatMember, isFlatType_layered, hms]
    rw [map_cons, areFlatNodes, isFlatNode, variantEnum, hvalues, hmade]
    exact ⟨rfl, rfl⟩
  | inline => simp [isFlatMember, isFlatType] at hflat
  | plain f _ _ _ ih =>
    rw [all_cons, Bool.and_eq_true] at hflat
    obtain ⟨hms, hmade⟩ := ih hflat.2
    rw [all_cons, hflat.1, hms]
    exact ⟨rfl, hmade⟩
  | oneof o _ _ ih =>
    rw [all_cons, Bool.and_eq_true] at hflat
    obtain ⟨hms, hmade⟩ := ih hflat.2
    have hvalues := (areFlatValues_alternativeEntries o.alternatives).trans hflat.1
    rw [all_cons, hms, map_cons, areFlatNodes, isFlatNode, oneofEnum, hvalues, hmade]
    exact ⟨rfl, rfl⟩
  | _ => simp [isFlatMember] at hflat

theorem NodesRaised.flat {nodes stays : List Node} (h : NodesRaised nodes stays made)
    (hflat : areFlatNodes nodes = true) :
    areFlatNodes stays = true ∧ areFlatNodes (made.map .enum) = true := by
  induction h with
  | nil => exact ⟨rfl, rfl⟩
  | struct hbody _ ih =>
    rw [areFlatNodes, Bool.and_eq_true] at hflat
    obtain ⟨hmembers, hinner⟩ := hbody.flat hflat.1
    obtain ⟨hstays, hmade⟩ := ih hflat.2
    rw [areFlatNodes, isFlatNode, hmembers, hstays, map_append, areFlatNodes_append, hinner, hmade]
    exact ⟨rfl, rfl⟩
  | oneof o _ ih =>
    rw [areFlatNodes, Bool.and_eq_true] at hflat
    obtain ⟨hstays, hmade⟩ := ih hflat.2
    have hvalues := (areFlatValues_alternativeEntries o.alternatives).trans hflat.1
    rw [areFlatNodes, isFlatNode, oneofEnum, hvalues, hstays]
    exact ⟨rfl, hmade⟩
  | enum e _ ih =>
    rw [areFlatNodes, Bool.and_eq_true] at hflat
    obtain ⟨hstays, hmade⟩ := ih hflat.2
    rw [areFlatNodes, hflat.1, hstays]
    exact ⟨rfl, hmade⟩
  | space _ _ _ ihinner ih =>
    rw [areFlatNodes, Bool.and_eq_true] at hflat
    obtain ⟨hinside, hfront⟩ := ihinner hflat.1
    obtain ⟨hstays, hmade⟩ := ih hflat.2
    rw [areFlatNodes, isFlatNode, areFlatNodes_append, hfront, hinside, hstays]
    exact ⟨rfl, hmade⟩
  | service _ _ ih => exact ih hflat

theorem flat_lift {m : Module} (hflat : Flat m) : Flat (lift m).1 := by
  obtain ⟨stays, made, heq, hnodes⟩ := lift_raised m
  obtain ⟨hstays, hmade⟩ := hnodes.flat hflat
  rw [Flat, heq, areFlatNodes_append, hmade, hstays]
  rfl

/-! ### No sum type is left -/

/-- A part that lifting is there to take away: a oneof, or a field with a variant below
indirections. -/
def Part.IsSum : Part → Prop
  | .oneof _ => True
  | .field f => ∃ layers args len, f.type = layered layers (.generic .variant args len)
  | .enum _ | .member _ | .inline _ => False

theorem not_isSum_of_settled_members {ms : List Member} (hflat : ms.all isFlatMember = true)
    (hsettled : areSettledMembers ms = true) : ∀ p ∈ partsOfMembers ms, ¬ p.IsSum := by
  induction ms with
  | nil => nofun
  | cons m ms ih =>
    rw [all_cons, Bool.and_eq_true] at hflat
    cases m with
    | field f =>
      obtain ⟨name, t, attributes⟩ := f
      rw [areSettledMembers, Bool.and_eq_true] at hsettled
      have hvariant := variantIn?_eq_none.mp (variantIn?_of_settled hsettled.1)
      rw [partsOfMembers, partsOfType_of_flat t hflat.1, nil_append, forall_mem_cons]
      refine ⟨?_, ih hflat.2 hsettled.2⟩
      rintro ⟨layers, args, len, ht⟩
      exact hvariant layers args len ht
    | oneof o => simp [areSettledMembers] at hsettled
    | _ => simp [isFlatMember] at hflat

mutual

theorem not_isSum_of_settled_node : ∀ d : Node, isFlatNode d = true → isSettledNode d = true →
    ∀ p ∈ partsOfNode d, ¬ p.IsSum
  | .struct _, hflat, hsettled => not_isSum_of_settled_members hflat hsettled
  | .enum e, hflat, _ => by
    rw [partsOfNode, partsOfValues_of_flat hflat, nil_append, forall_mem_singleton]
    exact id
  | .oneof _, _, hsettled => absurd hsettled (by simp [isSettledNode])
  | .space _ inner, hflat, hsettled => not_isSum_of_settled inner hflat hsettled
  | .service _, _, _ => nofun

/-- In a flat list of nodes every sum type is in reach. -/
theorem not_isSum_of_settled : ∀ nodes : List Node, areFlatNodes nodes = true →
    areSettledNodes nodes = true → ∀ p ∈ partsOfNodes nodes, ¬ p.IsSum
  | [], _, _ => nofun
  | d :: rest, hflat, hsettled => by
    rw [areFlatNodes, Bool.and_eq_true] at hflat
    rw [areSettledNodes, Bool.and_eq_true] at hsettled
    rw [partsOfNodes, forall_mem_append]
    exact ⟨not_isSum_of_settled_node d hflat.1 hsettled.1,
      not_isSum_of_settled rest hflat.2 hsettled.2⟩

end

/-- A module that is flattened and then lifted is flat and has no sum type at any depth. Lifting
a lifted module, flat or not, changes nothing and reports nothing. -/
theorem lift_reaches_sumless_form (m : Module) :
    (Flat (lift (flatten m).1).1 ∧
        ∀ p ∈ partsOfNodes (lift (flatten m).1).1.nodes, ¬ p.IsSum) ∧
      lift (lift m).1 = ((lift m).1, {}) := by
  have hflat := flat_lift (flat_flatten m)
  exact ⟨⟨hflat, not_isSum_of_settled _ hflat (settled_lift _)⟩, lift_of_settled (settled_lift m)⟩

end Schemata.Normal
