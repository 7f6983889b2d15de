import Schemata.Proofs.Normal.FlatForm

/-!
Flattening loses nothing and duplicates nothing. `partsOfNodes` lists every field, oneof,
enum and struct at any depth of a module. Compared are the parts before and after: the
fields, with one more for each struct that filled a slot, the oneofs and the enums.

Structs are compared one by one. The list of nodes a struct is nested in gets one struct at
its front for it, with the same slots in the same order, and behind that front the nodes of
the list are what they were, in their order.
-/

namespace Schemata.Normal

open List

variable {moved : List Node}

/-! ### The parts of a module -/

/-- A declaration at any depth, as it stands there; structs that are nodes are left out. -/
inductive Part where
  | field (f : Field)
  | oneof (o : Oneof)
  | enum (e : Enum)
  /-- A struct among the members of another. -/
  | member (s : Struct)
  /-- A struct written as a type. -/
  | inline (s : Struct)

mutual

/-- The parts of a type, what a part holds before the part itself. -/
def partsOfType : TypeExpr → List Part
  | .missing | .primitive _ _ | .reference _ _ | .emptyInline => []
  | .indirection _ elem => partsOfType elem
  | .generic _ args _ => partsOfTypes args
  | .inline s => partsOfStruct s ++ [.inline s]

def partsOfTypes : List TypeExpr → List Part
  | [] => []
  | t :: ts => partsOfType t ++ partsOfTypes ts

def partsOfStruct : Struct → List Part
  | ⟨_, _, _, _, _, _, _, _, members⟩ => partsOfMembers members

def partsOfMembers : List Member → List Part
  | [] => []
  | .field ⟨name, type, attributes⟩ :: ms =>
    partsOfType type ++ .field ⟨name, type, attributes⟩ :: partsOfMembers ms
  | .oneof ⟨name, attributes, alts⟩ :: ms =>
    partsOfAlternatives alts ++ .oneof ⟨name, attributes, alts⟩ :: partsOfMembers ms
  | .enum ⟨name, namespaces, attributes, isScoped, underlying, values⟩ :: ms =>
    partsOfValues values ++
      .enum ⟨name, namespaces, attributes, isScoped, underlying, values⟩ :: partsOfMembers ms
  | .struct s :: ms => partsOfStruct s ++ .member s :: partsOfMembers ms

def partsOfAlternatives : List Alternative → List Part
  | [] => []
  | ⟨_, type, _⟩ :: alts => partsOfType type ++ partsOfAlternatives alts

def partsOfValues : List EnumValue → List Part
  | [] => []
  | ⟨_, _, _, payload⟩ :: values => partsOfType payload ++ partsOfValues values

end

mutual

def partsOfNode : Node → List Part
  | .struct s => partsOfMembers s.members
  | .enum e => partsOfValues e.values ++ [.enum e]
  | .oneof o => partsOfAlternatives o.alternatives ++ [.oneof o]
  | .space _ inner => partsOfNodes inner
  | .service _ => []

/-- Every part of the nodes and of the namespaces among them. -/
def partsOfNodes : List Node → List Part
  | [] => []
  | d :: rest => partsOfNode d ++ partsOfNodes rest

end

theorem partsOfStruct_eq (s : Struct) : partsOfStruct s = partsOfMembers s.members := by
  cases s
  rw [partsOfStruct]

theorem partsOfMembers_enum (e : Enum) (ms : List Member) :
    partsOfMembers (.enum e :: ms) = partsOfValues e.values ++ .enum e :: partsOfMembers ms := by
  cases e
  rw [partsOfMembers]

@[simp] theorem partsOfMembers_append (xs ys : List Member) :
    partsOfMembers (xs ++ ys) = partsOfMembers xs ++ partsOfMembers ys := by
  induction xs with
  | nil => rfl
  | cons m xs ih =>
    cases m with
    | field f => cases f; simp [partsOfMembers, ih]
    | oneof o => cases o; simp [partsOfMembers, ih]
    | enum e => simp [partsOfMembers_enum, ih]
    | struct s => simp [partsOfMembers, ih]

@[simp] theorem partsOfNodes_append (xs ys : List Node) :
    partsOfNodes (xs ++ ys) = partsOfNodes xs ++ partsOfNodes ys := by
  induction xs with
  | nil => rfl
  | cons d xs ih => simp [partsOfNodes, ih]

/-! ### What is compared of them -/

/-- What a oneof is, the types of its alternatives apart. -/
structure OneofOutline where
  name : String
  attributes : List Attribute
  alternatives : List (String × List Attribute)
deriving DecidableEq

/-- What an enum is, its namespace path and the payloads of its values apart. -/
structure EnumOutline where
  name : String
  attributes : List Attribute
  isScoped : Bool
  underlying : String
  values : List (String × Int64 × List Attribute)
deriving DecidableEq

def alternativesOutline (alts : List Alternative) : List (String × List Attribute) :=
  alts.map fun a => (a.name, a.attributes)

def valuesOutline (values : List EnumValue) : List (String × Int64 × List Attribute) :=
  values.map fun v => (v.name, v.number, v.attributes)

def oneofOutline (o : Oneof) : OneofOutline :=
  ⟨o.name, o.attributes, alternativesOutline o.alternatives⟩

def enumOutline (e : Enum) : EnumOutline :=
  ⟨e.name, e.attributes, e.isScoped, e.underlying, valuesOutline e.values⟩

namespace Part

def field? : Part → Option (String × List Attribute)
  | .field f => some (f.name, f.attributes)
  | _ => none

/-- The slot a struct fills among the members of its parent. -/
def slot? : Part → Option (String × List Attribute)
  | .member s => if s.varName = "" then none else some (s.varName, s.attributes)
  | _ => none

def oneof? : Part → Option OneofOutline
  | .oneof o => some (oneofOutline o)
  | _ => none

def enum? : Part → Option EnumOutline
  | .enum e => some (enumOutline e)
  | _ => none

/-- Whether a part is moved out by flattening: all that is nested, except fields, oneofs and
the structs that give their members to their parent. -/
def isHeld : Part → Bool
  | .field _ | .oneof _ => false
  | .enum _ | .inline _ => true
  | .member s => s.isNamed || s.varName != ""

end Part

open Schemata.Normal.Part

/-- The parts that are moved out of a node to the front of its list. A namespace keeps
what is moved out of its nodes. -/
def heldInNode : Node → List Part
  | .struct s => (partsOfMembers s.members).filter isHeld
  | .enum e => (partsOfValues e.values).filter isHeld
  | .oneof o => (partsOfAlternatives o.alternatives).filter isHeld
  | .space _ _ | .service _ => []

def heldInNodes (nodes : List Node) : List Part := nodes.flatMap heldInNode

/-- A part that counts once on either side. -/
inductive Label where
  | slot (name : String) (attributes : List Attribute)
  | oneof (o : OneofOutline)
  | enum (e : EnumOutline)
deriving DecidableEq

/-- A struct in a slot counts as the field that takes its place. -/
def Part.label? : Part → Option Label
  | .field f => some (.slot f.name f.attributes)
  | .oneof o => some (.oneof (oneofOutline o))
  | .enum e => some (.enum (enumOutline e))
  | .member s => if s.varName = "" then none else some (.slot s.varName s.attributes)
  | .inline _ => none

mutual

def slotsOfStruct : Struct → List Label
  | ⟨_, _, _, _, _, _, _, _, members⟩ => slotsOfMembers members

/-- What the members of a struct are once nothing is nested among them: the slots in order,
those of a struct without a name or a slot among those of its parent. -/
def slotsOfMembers : List Member → List Label
  | [] => []
  | .field f :: ms => .slot f.name f.attributes :: slotsOfMembers ms
  | .oneof o :: ms => .oneof (oneofOutline o) :: slotsOfMembers ms
  | .enum _ :: ms => slotsOfMembers ms
  | .struct s :: ms =>
    if s.varName ≠ "" then .slot s.varName s.attributes :: slotsOfMembers ms
    else if s.isNamed then slotsOfMembers ms
    else slotsOfStruct s ++ slotsOfMembers ms

end

@[simp] theorem slotsOfMembers_append (xs ys : List Member) :
    slotsOfMembers (xs ++ ys) = slotsOfMembers xs ++ slotsOfMembers ys := by
  induction xs with
  | nil => rfl
  | cons m xs ih =>
    cases m with
    | field f => simp [slotsOfMembers, ih]
    | oneof o => simp [slotsOfMembers, ih]
    | enum e => simp [slotsOfMembers, ih]
    | struct s =>
      rw [cons_append, slotsOfMembers, slotsOfMembers, ih]
      split
      · rfl
      · split
        · rfl
        · rw [append_assoc]

/-! ### Nothing lost, nothing duplicated -/

/-- `s'` is the declaration that has become of the nested struct `s`. -/
structure StandsFor (s s' : Struct) : Prop where
  header : HeaderKept s s'
  isAnonymous : s'.isAnonymous = false
  varName : s'.varName = ""
  body : slotsOfMembers s'.members = slotsOfMembers s.members

/-- A part and the node it has become. -/
inductive Becomes : Part → Node → Prop
  | enum {e e' : Enum} (hheader : EnumHeaderKept e e')
      (hvalues : valuesOutline e'.values = valuesOutline e.values) : Becomes (.enum e) (.enum e')
  | inline {s s' : Struct} (hstruct : StandsFor s s') (hattributes : s'.attributes = s.attributes) :
      Becomes (.inline s) (.struct s')
  /-- The attributes of a struct in a slot are on the field there. -/
  | slot {s s' : Struct} (hvar : s.varName ≠ "") (hstruct : StandsFor s s')
      (hattributes : s'.attributes = []) : Becomes (.member s) (.struct s')
  | named {s s' : Struct} (hs : s.isNamed = true) (hvar : s.varName = "")
      (hstruct : StandsFor s s') (hattributes : s'.attributes = s.attributes) :
      Becomes (.member s) (.struct s')

/-- The nodes of a list, in order, against what they are in place. In a namespace the parts
moved out of its nodes stand before them, one node for each. -/
inductive EachStays : List Node → List Node → Prop
  | nil : EachStays [] []
  | struct {s : Struct} {members : List Member} {rest stays : List Node}
      (hslots : slotsOfMembers members = slotsOfMembers s.members)
      (hrest : EachStays rest stays) :
      EachStays (.struct s :: rest) (.struct { s with members } :: stays)
  | enum {e : Enum} {values : List EnumValue} {rest stays : List Node}
      (hvalues : valuesOutline values = valuesOutline e.values) (hrest : EachStays rest stays) :
      EachStays (.enum e :: rest) (.enum { e with values } :: stays)
  | oneof {o : Oneof} {alternatives : List Alternative} {rest stays : List Node}
      (halts : alternativesOutline alternatives = alternativesOutline o.alternatives)
      (hrest : EachStays rest stays) :
      EachStays (.oneof o :: rest) (.oneof { o with alternatives } :: stays)
  | space (name : String) {inner inside front rest stays : List Node}
      (hfront : Forall₂ Becomes (heldInNodes inner) front) (hinner : EachStays inner inside)
      (hrest : EachStays rest stays) :
      EachStays (.space name inner :: rest) (.space name (front ++ inside) :: stays)
  | service (s : Service) {rest stays : List Node} (hrest : EachStays rest stays) :
      EachStays (.service s :: rest) (.service s :: stays)

/-- `m'` has what `m` has, each part once. -/
structure Conserved (m m' : Module) : Prop where
  fields : ((partsOfNodes m'.nodes).filterMap field?).Perm
    ((partsOfNodes m.nodes).filterMap field? ++ (partsOfNodes m.nodes).filterMap slot?)
  oneofs : ((partsOfNodes m'.nodes).filterMap oneof?).Perm
    ((partsOfNodes m.nodes).filterMap oneof?)
  enums : ((partsOfNodes m'.nodes).filterMap enum?).Perm
    ((partsOfNodes m.nodes).filterMap enum?)
  /-- The nodes stand, in their order, behind one node for each part moved out of them. -/
  nodes : ∃ front stays, m'.nodes = front ++ stays ∧
    Forall₂ Becomes (heldInNodes m.nodes) front ∧ EachStays m.nodes stays

/-! ### Outlines are kept -/

theorem AlternativesUnnested.outline {alts alts' : List Alternative}
    (h : AlternativesUnnested alts alts' moved) :
    alternativesOutline alts' = alternativesOutline alts := by
  induction alts generalizing alts' moved with
  | nil =>
    cases h
    rfl
  | cons _ _ ih =>
    cases h with
    | cons name attributes ht halts =>
      have hrest := ih halts
      simp only [alternativesOutline, map_cons] at hrest ⊢
      rw [hrest]

theorem ValuesUnnested.outline {values values' : List EnumValue}
    (h : ValuesUnnested values values' moved) : valuesOutline values' = valuesOutline values := by
  induction values generalizing values' moved with
  | nil =>
    cases h
    rfl
  | cons _ _ ih =>
    cases h with
    | cons name number attributes ht hvalues =>
      have hrest := ih hvalues
      simp only [valuesOutline, map_cons] at hrest ⊢
      rw [hrest]

theorem enumOutline_eq {e e' : Enum} (hheader : EnumHeaderKept e e')
    (hvalues : valuesOutline e'.values = valuesOutline e.values) :
    enumOutline e' = enumOutline e := by
  simp only [enumOutline, hheader.name, hheader.attributes, hheader.isScoped, hheader.underlying,
    hvalues]

theorem MembersUnnested.slots : ∀ {ms ms' : List Member} {moved : List Node},
    MembersUnnested ms ms' moved → slotsOfMembers ms' = slotsOfMembers ms
  | [], _, _, h => by
    cases h
    rfl
  | .field _ :: _, _, _, h => by
    cases h with
    | field _ _ _ hms => rw [slotsOfMembers, slotsOfMembers, hms.slots]
  | .oneof _ :: _, _, _, h => by
    cases h with
    | oneof _ _ halts hms =>
      rw [slotsOfMembers, slotsOfMembers, hms.slots, oneofOutline, halts.outline, oneofOutline]
  | .enum _ :: _, _, _, h => by
    cases h with
    | enum _ _ hms => rw [slotsOfMembers, hms.slots]
  | .struct ⟨_, _, _, _, _, _, _, _, members⟩ :: _, _, _, h => by
    rw [slotsOfMembers]
    cases h with
    | splice hs hvar hgiven hms =>
      rw [slotsOfMembers_append, hgiven.slots, hms.slots, slotsOfStruct,
        if_neg (not_not_intro hvar), hs]
      rfl
    | slot hvar _ _ hms => rw [slotsOfMembers, if_pos hvar, hms.slots]
    | named hs hvar _ _ hms => rw [if_neg (not_not_intro hvar), if_pos hs, hms.slots]

theorem StructUnnested.standsFor {s s' : Struct} (h : StructUnnested s s' moved) :
    StandsFor s s' := by
  cases h with
  | intro hheader hanonymous hvar hbody => exact ⟨hheader, hanonymous, hvar, hbody.slots⟩

/-! ### The fields, oneofs and enums -/

variable (x : Label)

def tally (parts : List Part) : Nat := (parts.filterMap label?).count x

@[simp] theorem tally_nil : tally x [] = 0 := rfl

@[simp] theorem tally_append (ps qs : List Part) :
    tally x (ps ++ qs) = tally x ps + tally x qs := by
  simp [tally]

@[simp] theorem tally_cons (p : Part) (ps : List Part) :
    tally x (p :: ps) = p.label?.toList.count x + tally x ps := by
  cases h : p.label? <;> simp [tally, h, Nat.add_comm, count_cons]

mutual

theorem TypeUnnested.tally {t t' : TypeExpr} {moved : List Node} :
    TypeUnnested t t' moved →
      tally x (partsOfType t') + tally x (partsOfNodes moved) = tally x (partsOfType t)
  | .missing => rfl
  | .primitive _ _ => rfl
  | .reference _ _ => rfl
  | .emptyInline => rfl
  | .indirection _ helem => helem.tally
  | .generic _ _ hargs => hargs.tally
  | .inline hstruct _ => by
    have hbody := hstruct.tally
    simp only [TypeExpr.ref, partsOfType, partsOfStruct_eq, tally_append, tally_cons, tally_nil,
      label?, Option.toList_none, count_nil]
    omega

theorem TypesUnnested.tally {ts ts' : List TypeExpr} {moved : List Node} :
    TypesUnnested ts ts' moved →
      tally x (partsOfTypes ts') + tally x (partsOfNodes moved) = tally x (partsOfTypes ts)
  | .nil => rfl
  | .cons ht hts => by
    have hfirst := ht.tally
    have hrest := hts.tally
    simp only [partsOfTypes, partsOfNodes_append, tally_append]
    omega

theorem StructUnnested.tally {s s' : Struct} {moved : List Node} :
    StructUnnested s s' moved → tally x (partsOfNodes moved) = tally x (partsOfMembers s.members)
  | .intro _ _ _ hbody => by
    have hmembers := hbody.tally
    simp only [partsOfNodes_append, partsOfNodes, partsOfNode, tally_append, tally_nil]
    omega

theorem MembersUnnested.tally {ms ms' : List Member} {moved : List Node} :
    MembersUnnested ms ms' moved →
      tally x (partsOfMembers ms') + tally x (partsOfNodes moved) = tally x (partsOfMembers ms)
  | .nil => rfl
  | .field _ _ ht hms => by
    have htype := ht.tally
    have hrest := hms.tally
    simp only [partsOfMembers, partsOfNodes_append, tally_append, tally_cons, label?]
    omega
  | .oneof _ _ halts hms => by
    have htypes := halts.tally
    have hrest := hms.tally
    simp only [partsOfMembers, partsOfNodes_append, tally_append, tally_cons, label?,
      oneofOutline, halts.outline]
    omega
  | .enum hheader hvalues hms => by
    have hpayloads := hvalues.tally
    have hrest := hms.tally
    simp only [partsOfMembers_enum, partsOfNodes_append, partsOfNodes, partsOfNode, tally_append,
      tally_cons, tally_nil, label?, enumOutline_eq hheader hvalues.outline]
    omega
  | .splice _ hvar hgiven hms => by
    have hbody := hgiven.tally
    have hrest := hms.tally
    simp only [partsOfMembers, partsOfMembers_append, partsOfStruct_eq, partsOfNodes_append,
      tally_append, tally_cons, label?, if_pos hvar, Option.toList_none, count_nil]
    omega
  | .slot hvar hstruct _ hms => by
    have hbody := hstruct.tally
    have hrest := hms.tally
    -- the field left in the slot has the label of the struct that filled it
    simp only [partsOfMembers, TypeExpr.ref, partsOfType, partsOfStruct_eq, partsOfNodes_append,
      tally_append, tally_cons, tally_nil, label?, if_neg hvar]
    omega
  | .named _ hvar hstruct _ hms => by
    have hbody := hstruct.tally
    have hrest := hms.tally
    simp only [partsOfMembers, partsOfStruct_eq, partsOfNodes_append, tally_append, tally_cons,
      label?, if_pos hvar, Option.toList_none, count_nil]
    omega

theorem AlternativesUnnested.tally {alts alts' : List Alternative} {moved : List Node} :
    AlternativesUnnested alts alts' moved →
      tally x (partsOfAlternatives alts') + tally x (partsOfNodes moved) =
        tally x (partsOfAlternatives alts)
  | .nil => rfl
  | .cons _ _ ht halts => by
    have hfirst := ht.tally
    have hrest := halts.tally
    simp only [partsOfAlternatives, partsOfNodes_append, tally_append]
    omega

theorem ValuesUnnested.tally {values values' : List EnumValue} {moved : List Node} :
    ValuesUnnested values values' moved →
      tally x (partsOfValues values') + tally x (partsOfNodes moved) = tally x (partsOfValues values)
  | .nil => rfl
  | .cons _ _ _ ht hvalues => by
    have hfirst := ht.tally
    have hrest := hvalues.tally
    simp only [partsOfValues, partsOfNodes_append, tally_append]
    omega

end

theorem NodesUnnested.tally {nodes stays : List Node}
    (h : NodesUnnested nodes stays moved) :
    tally x (partsOfNodes stays) + tally x (partsOfNodes moved) = tally x (partsOfNodes nodes) := by
  induction h with
  | nil => rfl
  | struct hbody _ ih =>
    have hmembers := hbody.tally x
    simp only [partsOfNodes, partsOfNode, partsOfNodes_append, tally_append]
    omega
  | enum hvalues _ ih =>
    have hpayloads := hvalues.tally x
    simp only [partsOfNodes, partsOfNode, partsOfNodes_append, tally_append, tally_cons,
      label?, enumOutline, hvalues.outline]
    omega
  | oneof halts _ ih =>
    have htypes := halts.tally x
    simp only [partsOfNodes, partsOfNode, partsOfNodes_append, tally_append, tally_cons,
      label?, oneofOutline, halts.outline]
    omega
  | space _ _ _ ihinner ih =>
    simp only [partsOfNodes, partsOfNode, partsOfNodes_append, tally_append]
    omega
  | service _ _ ih =>
    simp only [partsOfNodes, partsOfNode, tally_append]
    omega

theorem labels_flatten (m : Module) :
    ((partsOfNodes (flatten m).1.nodes).filterMap label?).Perm
      ((partsOfNodes m.nodes).filterMap label?) := by
  obtain ⟨stays, moved, heq, hnodes⟩ := flatten_unnested m
  rw [heq, perm_iff_count]
  intro x
  change tally x (partsOfNodes (moved ++ stays)) = tally x (partsOfNodes m.nodes)
  rw [partsOfNodes_append, tally_append, Nat.add_comm]
  exact hnodes.tally x

/-! ### Labels and parts -/

namespace Label

def slot? : Label → Option (String × List Attribute)
  | .slot name attributes => some (name, attributes)
  | _ => none

def oneof? : Label → Option OneofOutline
  | .oneof o => some o
  | _ => none

def enum? : Label → Option EnumOutline
  | .enum e => some e
  | _ => none

end Label

theorem filterMap_label_slot (ps : List Part) :
    ((ps.filterMap label?).filterMap Label.slot?).Perm
      (ps.filterMap field? ++ ps.filterMap slot?) := by
  induction ps with
  | nil => exact .refl _
  | cons p ps ih =>
    cases p with
    | field f => exact ih.cons _
    | oneof o => exact ih
    | enum e => exact ih
    | inline s => exact ih
    | member s =>
      by_cases hvar : s.varName = ""
      · simp only [filterMap_cons, label?, field?, slot?, if_pos hvar]
        exact ih
      · simp only [filterMap_cons, label?, field?, slot?, Label.slot?, if_neg hvar]
        exact (ih.cons _).trans perm_middle.symm

theorem label?_bind_oneof? (p : Part) : p.label?.bind Label.oneof? = p.oneof? := by
  cases p with
  | member s =>
    simp only [label?, oneof?]
    split <;> rfl
  | _ => rfl

theorem label?_bind_enum? (p : Part) : p.label?.bind Label.enum? = p.enum? := by
  cases p with
  | member s =>
    simp only [label?, enum?]
    split <;> rfl
  | _ => rfl

/-! ### A flat module has no slots -/

mutual

theorem partsOfType_of_flat : ∀ t : TypeExpr, isFlatType t = true → partsOfType t = []
  | .missing, _ => rfl
  | .primitive _ _, _ => rfl
  | .reference _ _, _ => rfl
  | .emptyInline, _ => rfl
  | .indirection _ elem, hflat => partsOfType_of_flat elem hflat
  | .generic _ args _, hflat => partsOfTypes_of_flat args hflat
  | .inline _, hflat => by simp [isFlatType] at hflat

theorem partsOfTypes_of_flat : ∀ ts : List TypeExpr, areFlatTypes ts = true → partsOfTypes ts = []
  | [], _ => rfl
  | t :: ts, hflat => by
    rw [areFlatTypes, Bool.and_eq_true] at hflat
    rw [partsOfTypes, partsOfType_of_flat t hflat.1, partsOfTypes_of_flat ts hflat.2]
    rfl

end

theorem partsOfAlternatives_of_flat {alts : List Alternative}
    (hflat : areFlatAlternatives alts = true) : partsOfAlternatives alts = [] := by
  induction alts with
  | nil => rfl
  | cons a alts ih =>
    rw [areFlatAlternatives, all_cons, Bool.and_eq_true] at hflat
    cases a
    rw [partsOfAlternatives, partsOfType_of_flat _ hflat.1, ih hflat.2]
    rfl

theorem partsOfValues_of_flat {values : List EnumValue} (hflat : areFlatValues values = true) :
    partsOfValues values = [] := by
  induction values with
  | nil => rfl
  | cons v values ih =>
    rw [areFlatValues, all_cons, Bool.and_eq_true] at hflat
    cases v
    rw [partsOfValues, partsOfType_of_flat _ hflat.1, ih hflat.2]
    rfl

theorem slots_of_flat_members {ms : List Member} (hflat : ms.all isFlatMember = true) :
    (partsOfMembers ms).filterMap slot? = [] := by
  induction ms with
  | nil => rfl
  | cons m ms ih =>
    rw [all_cons, Bool.and_eq_true] at hflat
    cases m with
    | field f =>
      cases f
      rw [partsOfMembers, partsOfType_of_flat _ hflat.1]
      exact ih hflat.2
    | oneof o =>
      cases o
      rw [partsOfMembers, partsOfAlternatives_of_flat hflat.1]
      exact ih hflat.2
    | _ => simp [isFlatMember] at hflat

mutual

theorem slots_of_flat_node : ∀ d : Node, isFlatNode d = true → (partsOfNode d).filterMap slot? = []
  | .struct _, hflat => slots_of_flat_members hflat
  | .enum e, hflat => by
    rw [partsOfNode, partsOfValues_of_flat hflat]
    rfl
  | .oneof o, hflat => by
    rw [partsOfNode, partsOfAlternatives_of_flat hflat]
    rfl
  | .space _ inner, hflat => slots_of_flat_nodes inner hflat
  | .service _, _ => rfl

theorem slots_of_flat_nodes : ∀ nodes : List Node, areFlatNodes nodes = true →
    (partsOfNodes nodes).filterMap slot? = []
  | [], _ => rfl
  | d :: rest, hflat => by
    rw [areFlatNodes, Bool.and_eq_true] at hflat
    rw [partsOfNodes, filterMap_append, slots_of_flat_node d hflat.1,
      slots_of_flat_nodes rest hflat.2]
    rfl

end

/-! ### One node for each part moved out -/

mutual

theorem TypeUnnested.held {t t' : TypeExpr} {moved : List Node} : TypeUnnested t t' moved →
    Forall₂ Becomes ((partsOfType t).filter isHeld) moved
  | .missing => .nil
  | .primitive _ _ => .nil
  | .reference _ _ => .nil
  | .emptyInline => .nil
  | .indirection _ helem => helem.held
  | .generic _ _ hargs => hargs.held
  | .inline hstruct hattributes => by
    rw [partsOfType, filter_append, partsOfStruct_eq]
    exact hstruct.held (.inline hstruct.standsFor hattributes)

theorem TypesUnnested.held {ts ts' : List TypeExpr} {moved : List Node} :
    TypesUnnested ts ts' moved → Forall₂ Becomes ((partsOfTypes ts).filter isHeld) moved
  | .nil => .nil
  | .cons ht hts => by
    rw [partsOfTypes, filter_append]
    exact rel_append ht.held hts.held

/-- The struct itself comes last. -/
theorem StructUnnested.held {s s' : Struct} {moved : List Node} {p : Part} :
    StructUnnested s s' moved → Becomes p (.struct s') →
      Forall₂ Becomes ((partsOfMembers s.members).filter isHeld ++ [p]) moved
  | .intro _ _ _ hbody, hp => rel_append hbody.held (.cons hp .nil)

theorem MembersUnnested.held {ms ms' : List Member} {moved : List Node} :
    MembersUnnested ms ms' moved → Forall₂ Becomes ((partsOfMembers ms).filter isHeld) moved
  | .nil => .nil
  | .field _ _ ht hms => by
    rw [partsOfMembers, filter_append]
    exact rel_append ht.held hms.held
  | .oneof _ _ halts hms => by
    rw [partsOfMembers, filter_append]
    exact rel_append halts.held hms.held
  | .enum hheader hvalues hms => by
    rw [partsOfMembers_enum, filter_append]
    exact rel_append hvalues.held (.cons (.enum hheader hvalues.outline) hms.held)
  | .splice hs hvar hgiven hms => by
    -- the struct is gone, but what its members hold is moved out like the parent's own
    rw [partsOfMembers, filter_append, partsOfStruct_eq,
      filter_cons_of_neg (by simp [isHeld, hs, hvar])]
    exact rel_append hgiven.held hms.held
  | .slot hvar hstruct hattributes hms => by
    have hitself := hstruct.held (.slot hvar hstruct.standsFor hattributes)
    rw [partsOfMembers, filter_append, partsOfStruct_eq,
      filter_cons_of_pos (by simp [isHeld, hvar]), append_cons]
    exact rel_append hitself hms.held
  | .named hs hvar hstruct hattributes hms => by
    have hitself := hstruct.held (.named hs hvar hstruct.standsFor hattributes)
    rw [partsOfMembers, filter_append, partsOfStruct_eq,
      filter_cons_of_pos (by simp [isHeld, hs]), append_cons]
    exact rel_append hitself hms.held

theorem AlternativesUnnested.held {alts alts' : List Alternative} {moved : List Node} :
    AlternativesUnnested alts alts' moved →
      Forall₂ Becomes ((partsOfAlternatives alts).filter isHeld) moved
  | .nil => .nil
  | .cons _ _ ht halts => by
    rw [partsOfAlternatives, filter_append]
    exact rel_append ht.held halts.held

theorem ValuesUnnested.held {values values' : List EnumValue} {moved : List Node} :
    ValuesUnnested values values' moved →
      Forall₂ Becomes ((partsOfValues values).filter isHeld) moved
  | .nil => .nil
  | .cons _ _ _ ht hvalues => by
    rw [partsOfValues, filter_append]
    exact rel_append ht.held hvalues.held

end

theorem NodesUnnested.held {nodes stays : List Node} (h : NodesUnnested nodes stays moved) :
    Forall₂ Becomes (heldInNodes nodes) moved ∧ EachStays nodes stays := by
  induction h with
  | nil => exact ⟨.nil, .nil⟩
  | struct hbody _ ih => exact ⟨rel_append hbody.held ih.1, .struct hbody.slots ih.2⟩
  | enum hvalues _ ih => exact ⟨rel_append hvalues.held ih.1, .enum hvalues.outline ih.2⟩
  | oneof halts _ ih => exact ⟨rel_append halts.held ih.1, .oneof halts.outline ih.2⟩
  | space name _ _ ihinner ih => exact ⟨ih.1, .space name ihinner.1 ihinner.2 ih.2⟩
  | service s _ ih => exact ⟨ih.1, .service s ih.2⟩

/-- Flattening loses and duplicates nothing, whatever the names in the module are. -/
theorem flatten_conserved (m : Module) : Conserved m (flatten m).1 where
  fields := by
    have hslots := (labels_flatten m).filterMap Label.slot?
    have hafter := filterMap_label_slot (partsOfNodes (flatten m).1.nodes)
    rw [slots_of_flat_nodes _ (flat_flatten m), List.append_nil] at hafter
    exact hafter.symm.trans (hslots.trans (filterMap_label_slot _))
  oneofs := by
    have honeofs := (labels_flatten m).filterMap Label.oneof?
    simpa only [List.filterMap_filterMap, label?_bind_oneof?] using honeofs
  enums := by
    have henums := (labels_flatten m).filterMap Label.enum?
    simpa only [List.filterMap_filterMap, label?_bind_enum?] using henums
  nodes := by
    obtain ⟨stays, moved, heq, hnodes⟩ := flatten_unnested m
    obtain ⟨hheld, hstays⟩ := hnodes.held
    exact ⟨moved, stays, by rw [heq], hheld, hstays⟩

end Schemata.Normal
