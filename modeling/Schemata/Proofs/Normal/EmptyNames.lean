import Schemata.Proofs.Naming.Words
import Schemata.Proofs.Normal.Unnesting
import Schemata.Proofs.Schema.Soundness

/-!
When flattening gives out the empty name. A struct without a name asks for the name of its owner
followed by the name of its place, and both can be empty. The first struct that asks for the
empty name gets it, if it is free; from then on it is in use, and it is numbered like any other.
-/

namespace Schemata.Normal

open Naming

variable {p : Prop} {a : Supply}

/-! ### Which structs ask for it -/

mutual

/-- Whether a struct in a type asks for the empty name. `nameless` tells whether that is what a
struct without a name asks for where the type stands. -/
def asksOfType (nameless : Bool) : TypeExpr → Bool
  | .missing | .primitive _ _ | .reference _ _ | .emptyInline => false
  | .indirection _ elem => asksOfType nameless elem
  | .generic _ args _ => asksOfTypes nameless args
  | .inline ⟨name, _, _, anonymous, _, _, _, _, members⟩ =>
    nameless && (anonymous || name == "") || asksOfMembers false members

def asksOfTypes (nameless : Bool) : List TypeExpr → Bool
  | [] => false
  | t :: ts => asksOfType nameless t || asksOfTypes nameless ts

/-- The same for the members of a struct; `nameless` tells whether its name is empty. A struct
that is moved out from among them has a name, and one that is not has that of its parent. -/
def asksOfMembers (nameless : Bool) : List Member → Bool
  | [] => false
  | .field ⟨name, type, _⟩ :: ms =>
    asksOfType (nameless && name == "") type || asksOfMembers nameless ms
  | .oneof ⟨_, _, alts⟩ :: ms => asksOfAlternatives nameless alts || asksOfMembers nameless ms
  | .enum ⟨name, _, _, _, _, values⟩ :: ms =>
    asksOfValues (name == "") values || asksOfMembers nameless ms
  | .struct ⟨name, _, _, anonymous, var, _, _, _, members⟩ :: ms =>
    asksOfMembers (nameless && (anonymous || name == "") && var == "") members ||
      asksOfMembers nameless ms

def asksOfAlternatives (nameless : Bool) : List Alternative → Bool
  | [] => false
  | ⟨name, type, _⟩ :: alts =>
    asksOfType (nameless && name == "") type || asksOfAlternatives nameless alts

def asksOfValues (nameless : Bool) : List EnumValue → Bool
  | [] => false
  | ⟨name, _, _, payload⟩ :: values =>
    asksOfType (nameless && name == "") payload || asksOfValues nameless values

end

mutual

def asksOfNode : Node → Bool
  | .struct s => asksOfMembers (s.name == "") s.members
  | .enum e => asksOfValues (e.name == "") e.values
  | .oneof o => asksOfAlternatives (o.name == "") o.alternatives
  | .space _ inner => asksOfNodes inner
  | .service _ => false

/-- Whether a struct nested in the nodes asks for the empty name. -/
def asksOfNodes : List Node → Bool
  | [] => false
  | d :: rest => asksOfNode d || asksOfNodes rest

end

theorem asksOfType_inline (nameless : Bool) (s : Struct) :
    asksOfType nameless (.inline s) = (nameless && !s.isNamed || asksOfMembers false s.members) := by
  rw [← unnamed_eq_not_isNamed]
  cases s
  rw [asksOfType]

theorem asksOfMembers_struct (nameless : Bool) (s : Struct) (ms : List Member) :
    asksOfMembers nameless (.struct s :: ms) =
      (asksOfMembers (nameless && !s.isNamed && s.varName == "") s.members ||
        asksOfMembers nameless ms) := by
  rw [← unnamed_eq_not_isNamed]
  cases s
  rw [asksOfMembers]

/-! ### Empty names -/

theorem askedName_beq (owner name : String) :
    (owner ++ capitalize name == "") = (owner == "" && name == "") := by
  rw [Bool.eq_iff_iff]
  simp [capitalize_eq_empty]

theorem name_ne_of_isNamed {s : Struct} (hs : s.isNamed = true) : s.name ≠ "" := by
  simp only [Struct.isNamed, Bool.and_eq_true, bne_iff_ne] at hs
  exact hs.2

/-! ### Structs without a name -/

mutual

def TitledNode : Node → Prop
  | .struct s => s.IsTitled
  | .space _ inner => Titled inner
  | .enum _ | .oneof _ | .service _ => True

/-- Every struct among the nodes and in the namespaces there has a name, or is marked as having
none. -/
def Titled : List Node → Prop
  | [] => True
  | d :: rest => TitledNode d ∧ Titled rest

end

@[simp] theorem titled_append (xs ys : List Node) : Titled (xs ++ ys) ↔ Titled xs ∧ Titled ys := by
  induction xs with
  | nil => simp [Titled]
  | cons d xs ih => simp [Titled, ih, and_assoc]

/-- From `a` to `b` something was flattened in which a struct asks for the empty name if `asks`
holds: then the name is in use, and a struct was moved out under it if it was free. -/
structure Asks (asks : Prop) (a b : Supply) : Prop where
  taken : "" ∈ b.taken ↔ "" ∈ a.taken ∨ asks
  titled : Titled b.front ↔ Titled a.front ∧ ("" ∈ a.taken ∨ ¬ asks)

theorem Asks.refl (a : Supply) : Asks (false = true) a a where
  taken := by simp
  titled := by simp

/-- The name was in use or is not asked for, in two steps and in one. -/
theorem used_or_not_asked {used q : Prop} :
    (used ∨ ¬ p) ∧ ((used ∨ p) ∨ ¬ q) ↔ used ∨ ¬ (p ∨ q) := by
  tauto

theorem Asks.trans {q : Prop} {b c : Supply} (hab : Asks p a b) (hbc : Asks q b c) :
    Asks (p ∨ q) a c where
  taken := by rw [hbc.taken, hab.taken, or_assoc]
  titled := by rw [hbc.titled, hab.titled, hab.taken, and_assoc, used_or_not_asked]

/-- Two steps whose structs are looked for one after the other. -/
theorem Asks.or {p q : Bool} {b c : Supply} (hab : Asks (p = true) a b)
    (hbc : Asks (q = true) b c) : Asks ((p || q) = true) a c := by
  rw [Bool.or_eq_true]
  exact hab.trans hbc

/-- Declarations are collected that are no structs without a name. -/
theorem Asks.collect {b : Supply} (h : Asks p a b) (more : List Node) (hmore : Titled more) :
    Asks p a ⟨b.taken, b.front ++ more⟩ where
  taken := h.taken
  titled := by
    rw [titled_append, h.titled]
    simp [hmore]

/-! ### Flattening step by step -/

/-- A struct that is moved out is no longer marked as having no name. -/
theorem titled_movedStruct (namespaces : List String) (s : Struct) (name : String)
    (attributes : List Attribute) (members : List Member) :
    Titled [.struct (inheritSpaces namespaces (movedStruct s name attributes members))] ↔
      name ≠ "" := by
  simp only [Titled, TitledNode, Struct.IsTitled, inheritSpaces_plain, inheritSpaces_name, and_true,
    Bool.false_eq_true, false_or]
  rfl

theorem asks_hoistStruct {s : Struct} {name : String} (attributes : List Attribute) {h : Hoisting}
    (hname : name ≠ "") (hbody : Asks p a (flattenMembers name false s.members h).2.supply) :
    Asks p a (hoistStruct s name attributes h).supply :=
  hbody.collect _ ((titled_movedStruct _ s name attributes _).mpr hname)

/-- A struct is moved out under the name it is given for the one it asks for. -/
theorem asks_hoistStruct_claimed (s : Struct) (attributes : List Attribute) (h : Hoisting)
    (name path : String)
    (hbody : Asks (asksOfMembers ((h.claim name path).1 == "") s.members = true)
      (h.claim name path).2.supply
      (flattenMembers (h.claim name path).1 false s.members (h.claim name path).2).2.supply) :
    Asks ((name == "" || asksOfMembers false s.members) = true) h.supply
      (hoistStruct s (h.claim name path).1 attributes (h.claim name path).2).supply := by
  have hgiven : (h.claim name path).1 = "" ↔ name = "" ∧ "" ∉ h.supply.taken := by
    rw [claim_fst]
    exact freshName_eq_empty
  by_cases hempty : (h.claim name path).1 = ""
  · -- the name was free and is given out, so it is in use whatever the struct holds
    obtain ⟨hasked, hfree⟩ := hgiven.mp hempty
    refine ⟨iff_of_true ?_ (.inr (by simp [hasked])), iff_of_false ?_ (by simp [hasked, hfree])⟩
    · refine hbody.taken.mpr (.inl ?_)
      rw [claim_supply, hempty]
      exact List.mem_cons_self
    · intro htitled
      exact (titled_movedStruct _ s _ attributes _).mp ((titled_append _ _).mp htitled).2 hempty
  · -- another name is given out, which changes nothing for the empty one
    rw [beq_eq_false_iff_ne.mpr hempty, claim_supply] at hbody
    have hmoved := asks_hoistStruct attributes hempty hbody
    have hsame : "" ∈ (h.claim name path).1 :: h.taken ↔ "" ∈ h.supply.taken :=
      List.mem_cons.trans (or_iff_right (Ne.symm hempty))
    have hused : name = "" → "" ∈ h.supply.taken := by
      intro hasked
      by_contra hfree
      exact hempty (hgiven.mpr ⟨hasked, hfree⟩)
    have hcovered : "" ∈ h.supply.taken ∨ ¬ name = "" :=
      or_iff_not_imp_right.mpr fun hasked => hused (not_not.mp hasked)
    rw [Bool.or_eq_true, beq_iff_eq]
    refine ⟨hmoved.taken.trans ?_, hmoved.titled.trans ?_⟩
    · rw [hsame, ← or_assoc, or_iff_left_of_imp hused]
    · rw [hsame, not_or, or_and_left, and_iff_right hcovered]
      rfl

mutual

theorem flattenType_asks (name path : String) : ∀ (t : TypeExpr) (h : Hoisting),
    Asks (asksOfType (name == "") t = true) h.supply (flattenType name path t h).2.supply
  | .missing, h => .refl h.supply
  | .primitive _ _, h => .refl h.supply
  | .reference _ _, h => .refl h.supply
  | .emptyInline, h => .refl h.supply
  | .indirection _ elem, h => flattenType_asks name path elem h
  | .generic _ args _, h => flattenTypes_asks name path args h
  | .inline ⟨own, spaces, attrs, anonymous, var, record, abstract, base, members⟩, h => by
    let s : Struct := ⟨own, spaces, attrs, anonymous, var, record, abstract, base, members⟩
    change Asks (asksOfType (name == "") (.inline s) = true) h.supply
      (flattenType name path (.inline s) h).2.supply
    rw [asksOfType_inline]
    cases hs : s.isNamed with
    | true =>
      have hown := name_ne_of_isNamed hs
      have hbody := flattenMembers_asks own false members h
      rw [beq_eq_false_iff_ne.mpr hown] at hbody
      rw [flattenType_inline_named hs, Bool.not_true, Bool.and_false, Bool.false_or]
      exact asks_hoistStruct _ hown hbody
    | false =>
      rw [flattenType_inline_unnamed hs]
      have hbody := flattenMembers_asks (h.claim name path).1 false members (h.claim name path).2
      rw [Bool.not_false, Bool.and_true]
      exact asks_hoistStruct_claimed s attrs h name path hbody

theorem flattenTypes_asks (name path : String) : ∀ (ts : List TypeExpr) (h : Hoisting),
    Asks (asksOfTypes (name == "") ts = true) h.supply (flattenTypes name path ts h).2.supply
  | [], h => .refl h.supply
  | t :: ts, h => (flattenType_asks name path t h).or (flattenTypes_asks name path ts _)

theorem flattenMembers_asks (owner : String) (root : Bool) : ∀ (ms : List Member) (h : Hoisting),
    Asks (asksOfMembers (owner == "") ms = true) h.supply
      (flattenMembers owner root ms h).2.supply
  | [], h => .refl h.supply
  | .field ⟨name, type, attrs⟩ :: ms, h => by
    rw [asksOfMembers, ← askedName_beq]
    exact (flattenType_asks (owner ++ capitalize name) (owner ++ "." ++ name) type h).or
      (flattenMembers_asks owner root ms _)
  | .oneof ⟨name, attrs, alts⟩ :: ms, h =>
    (flattenAlternatives_asks owner alts h).or (flattenMembers_asks owner root ms _)
  | .enum ⟨name, spaces, attrs, isScoped, underlying, values⟩ :: ms, h => by
    have hvalues := flattenValues_asks name values h
    have hmoved : Asks _ h.supply ((flattenValues name values h).2.addEnum
        ⟨name, spaces, attrs, isScoped, underlying, (flattenValues name values h).1⟩).supply :=
      hvalues.collect [.enum _] ⟨trivial, trivial⟩
    exact hmoved.or (flattenMembers_asks owner root ms _)
  | .struct ⟨own, spaces, attrs, anonymous, var, record, abstract, base, members⟩ :: ms, h => by
    let s : Struct := ⟨own, spaces, attrs, anonymous, var, record, abstract, base, members⟩
    change Asks (asksOfMembers (owner == "") (.struct s :: ms) = true) h.supply
      (flattenMembers owner root (.struct s :: ms) h).2.supply
    rw [asksOfMembers_struct]
    cases hs : s.isNamed with
    | false =>
      by_cases hvar : s.varName = ""
      · rw [flattenMembers_splice hs hvar, hvar, Bool.not_false, Bool.and_true, beq_self_eq_true,
          Bool.and_true]
        exact (flattenMembers_asks owner root members h).or (flattenMembers_asks owner root ms _)
      · -- what asks for a slot's name never asks for the empty one
        have hasked : (slotName owner root s.varName == "") = false := by
          rw [slotName, askedName_beq, beq_eq_false_iff_ne.mpr hvar, Bool.and_false]
        rw [flattenMembers_slot_unnamed hs hvar, beq_eq_false_iff_ne.mpr hvar, Bool.and_false]
        have hmoved := asks_hoistStruct_claimed s [] h (slotName owner root s.varName)
          (owner ++ "." ++ s.varName) (flattenMembers_asks _ false members _)
        rw [hasked, Bool.false_or] at hmoved
        exact hmoved.or (flattenMembers_asks owner root ms _)
    | true =>
      have hown := name_ne_of_isNamed hs
      have hbody := flattenMembers_asks own false members h
      rw [beq_eq_false_iff_ne.mpr hown] at hbody
      rw [Bool.not_true, Bool.and_false, Bool.false_and]
      by_cases hvar : s.varName = ""
      · rw [flattenMembers_named hs hvar]
        exact (asks_hoistStruct _ hown hbody).or (flattenMembers_asks owner root ms _)
      · rw [flattenMembers_slot_named hs hvar]
        exact (asks_hoistStruct _ hown hbody).or (flattenMembers_asks owner root ms _)

theorem flattenAlternatives_asks (owner : String) : ∀ (alts : List Alternative) (h : Hoisting),
    Asks (asksOfAlternatives (owner == "") alts = true) h.supply
      (flattenAlternatives owner alts h).2.supply
  | [], h => .refl h.supply
  | ⟨name, type, _⟩ :: alts, h => by
    rw [asksOfAlternatives, ← askedName_beq]
    exact (flattenType_asks (owner ++ capitalize name) (owner ++ "." ++ name) type h).or
      (flattenAlternatives_asks owner alts _)

theorem flattenValues_asks (owner : String) : ∀ (values : List EnumValue) (h : Hoisting),
    Asks (asksOfValues (owner == "") values = true) h.supply
      (flattenValues owner values h).2.supply
  | [], h => .refl h.supply
  | ⟨name, _, _, payload⟩ :: values, h => by
    rw [asksOfValues, ← askedName_beq]
    exact (flattenType_asks (owner ++ capitalize name) (owner ++ "." ++ name) payload h).or
      (flattenValues_asks owner values _)

end

/-! ### Lists of nodes -/

/-- A node that is no struct without a name stands among the others. -/
theorem Asks.insert {taken : List String} {front stays : List Node}
    (h : Asks p a ⟨taken, front ++ stays⟩) {d : Node} (hd : TitledNode d) :
    Asks p a ⟨taken, front ++ d :: stays⟩ where
  taken := h.taken
  titled := by
    rw [← h.titled, titled_append, titled_append, Titled, and_iff_right hd]

/-- A namespace is flattened with a front of its own, before the other nodes. -/
theorem Asks.space {q : Prop} {used taken : List String} {inside front stays : List Node}
    (name : String) (hinner : Asks p ⟨a.taken, []⟩ ⟨used, inside⟩)
    (hrest : Asks q ⟨used, a.front⟩ ⟨taken, front ++ stays⟩) :
    Asks (p ∨ q) a ⟨taken, front ++ .space name inside :: stays⟩ where
  taken := by rw [hrest.taken, hinner.taken, or_assoc]
  titled := by
    have hinside := hinner.titled
    rw [Titled, true_and] at hinside
    rw [titled_append, Titled, TitledNode, and_left_comm, ← titled_append, hrest.titled, hinner.taken,
      hinside, and_left_comm, used_or_not_asked]

/-- The nodes are flattened in place, behind what came out of them. -/
theorem flattenEach_asks : ∀ (nodes : List Node) (h : Hoisting), Titled nodes →
    Asks (asksOfNodes nodes = true) h.supply
      ⟨(flattenEach nodes h).2.taken, (flattenEach nodes h).2.hoisted ++ (flattenEach nodes h).1⟩
  | [], h, _ => by
    rw [flattenEach, List.append_nil]
    exact .refl h.supply
  | .struct s :: rest, h, htitled => by
    rw [flattenEach_struct]
    have hbody := flattenMembers_asks s.name true s.members { h with namespaces := s.namespaces }
    exact hbody.or ((flattenEach_asks rest _ htitled.2).insert htitled.1)
  | .enum e :: rest, h, htitled => by
    rw [flattenEach_enum]
    have hbody := flattenValues_asks e.name e.values { h with namespaces := e.namespaces }
    exact hbody.or ((flattenEach_asks rest _ htitled.2).insert trivial)
  | .oneof o :: rest, h, htitled => by
    rw [flattenEach_oneof]
    have hbody := flattenAlternatives_asks o.name o.alternatives { h with namespaces := [] }
    exact hbody.or ((flattenEach_asks rest _ htitled.2).insert trivial)
  | .space name inner :: rest, h, htitled => by
    rw [flattenEach_space, asksOfNodes, Bool.or_eq_true]
    let start : Hoisting := { h with hoisted := [], namespaces := [] }
    let inside := flattenEach inner start
    exact (flattenEach_asks inner start htitled.1).space name (flattenEach_asks rest
      { h with taken := inside.2.taken, diagnostics := inside.2.diagnostics } htitled.2)
  | .service s :: rest, h, htitled => by
    rw [flattenEach_service]
    exact (Asks.refl _).or ((flattenEach_asks rest h htitled.2).insert trivial)

/-- Flattening leaves a struct without a name exactly if some struct asks for the empty name and
it is free. -/
theorem titled_flatten_iff (m : Module) (htitled : Titled m.nodes) :
    Titled (flatten m).1.nodes ↔ "" ∈ namesOfNodes m.nodes ∨ asksOfNodes m.nodes = false := by
  have hrun := (flattenEach_asks m.nodes { taken := namesOfNodes m.nodes } htitled).titled
  rw [← Bool.not_eq_true]
  exact hrun.trans (and_iff_right trivial)

end Schemata.Normal
