import Schemata.Proofs.Normal.FlattenMeaning

/-!
The form flattening reaches. In a flat module every struct, at any depth of namespaces,
has only fields and oneofs as members, and no type holds an inline struct, however many
containers and indirections stand around it. An inline type without a body is not one.

Both directions come from the relation: what has been unnested is flat, and what is flat
has nothing in it that could be moved out.
-/

namespace Schemata.Normal

variable {moved : List Node}

mutual

def isFlatType : TypeExpr → Bool
  | .missing | .primitive _ _ | .reference _ _ | .emptyInline => true
  | .indirection _ elem => isFlatType elem
  | .generic _ args _ => areFlatTypes args
  | .inline _ => false

def areFlatTypes : List TypeExpr → Bool
  | [] => true
  | t :: ts => isFlatType t && areFlatTypes ts

end

def areFlatAlternatives (alts : List Alternative) : Bool := alts.all (isFlatType ·.type)

def areFlatValues (values : List EnumValue) : Bool := values.all (isFlatType ·.payload)

/-- Whether a member is a field or a oneof without inline structs. -/
def isFlatMember : Member → Bool
  | .field f => isFlatType f.type
  | .oneof o => areFlatAlternatives o.alternatives
  | .enum _ | .struct _ => false

mutual

def isFlatNode : Node → Bool
  | .struct s => s.members.all isFlatMember
  | .enum e => areFlatValues e.values
  | .oneof o => areFlatAlternatives o.alternatives
  | .space _ inner => areFlatNodes inner
  | .service _ => true

def areFlatNodes : List Node → Bool
  | [] => true
  | d :: rest => isFlatNode d && areFlatNodes rest

end

def Flat (m : Module) : Prop := areFlatNodes m.nodes = true

instance (m : Module) : Decidable (Flat m) := inferInstanceAs (Decidable (_ = true))

example : ¬ Flat nestedOrder := by decide

@[simp] theorem areFlatNodes_append (xs ys : List Node) :
    areFlatNodes (xs ++ ys) = (areFlatNodes xs && areFlatNodes ys) := by
  induction xs with
  | nil => rfl
  | cons d xs ih => simp [areFlatNodes, ih, Bool.and_assoc]

/-! ### What is unnested is flat -/

mutual

theorem TypeUnnested.flat {t t' : TypeExpr} {moved : List Node} : TypeUnnested t t' moved →
    isFlatType t' = true ∧ areFlatNodes moved = true
  | .missing => ⟨rfl, rfl⟩
  | .primitive _ _ => ⟨rfl, rfl⟩
  | .reference _ _ => ⟨rfl, rfl⟩
  | .emptyInline => ⟨rfl, rfl⟩
  | .indirection _ helem => helem.flat
  | .generic _ _ hargs => hargs.flat
  | .inline hstruct _ => ⟨rfl, hstruct.flat⟩

theorem TypesUnnested.flat {ts ts' : List TypeExpr} {moved : List Node} :
    TypesUnnested ts ts' moved → areFlatTypes ts' = true ∧ areFlatNodes moved = true
  | .nil => ⟨rfl, rfl⟩
  | .cons ht hts => by
    obtain ⟨hflat, hmoved⟩ := ht.flat
    obtain ⟨hflats, hmoveds⟩ := hts.flat
    simp [areFlatTypes, hflat, hmoved, hflats, hmoveds]

theorem StructUnnested.flat {s s' : Struct} {moved : List Node} : StructUnnested s s' moved →
    areFlatNodes moved = true
  | .intro _ _ _ hbody => by
    obtain ⟨hmembers, hmoved⟩ := hbody.flat
    simp [areFlatNodes_append, areFlatNodes, isFlatNode, hmembers, hmoved]

theorem MembersUnnested.flat {ms ms' : List Member} {moved : List Node} :
    MembersUnnested ms ms' moved → ms'.all isFlatMember = true ∧ areFlatNodes moved = true
  | .nil => ⟨rfl, rfl⟩
  | .field _ _ ht hms => by
    obtain ⟨hflat, hmoved⟩ := ht.flat
    obtain ⟨hmembers, hrest⟩ := hms.flat
    exact ⟨by rw [List.all_cons, hmembers, isFlatMember, hflat]; rfl, by simp [hmoved, hrest]⟩
  | .oneof _ _ halts hms => by
    obtain ⟨hflat, hmoved⟩ := halts.flat
    obtain ⟨hmembers, hrest⟩ := hms.flat
    exact ⟨by rw [List.all_cons, hmembers, isFlatMember, hflat]; rfl, by simp [hmoved, hrest]⟩
  | .enum _ hvalues hms => by
    obtain ⟨hflat, hmoved⟩ := hvalues.flat
    obtain ⟨hmembers, hrest⟩ := hms.flat
    exact ⟨hmembers, by simp [areFlatNodes, isFlatNode, hflat, hmoved, hrest]⟩
  | .splice _ _ hgiven hms => by
    obtain ⟨hgivens, hmoved⟩ := hgiven.flat
    obtain ⟨hmembers, hrest⟩ := hms.flat
    exact ⟨by rw [List.all_append, hgivens, hmembers]; rfl, by simp [hmoved, hrest]⟩
  | .slot _ hstruct _ hms => by
    obtain ⟨hmembers, hrest⟩ := hms.flat
    exact ⟨by rw [List.all_cons, hmembers]; rfl, by simp [hstruct.flat, hrest]⟩
  | .named _ _ hstruct _ hms => by
    obtain ⟨hmembers, hrest⟩ := hms.flat
    exact ⟨hmembers, by simp [hstruct.flat, hrest]⟩

theorem AlternativesUnnested.flat {alts alts' : List Alternative} {moved : List Node} :
    AlternativesUnnested alts alts' moved →
      areFlatAlternatives alts' = true ∧ areFlatNodes moved = true
  | .nil => ⟨rfl, rfl⟩
  | .cons _ _ ht halts => by
    obtain ⟨hflat, hmoved⟩ := ht.flat
    obtain ⟨hflats, hmoveds⟩ := halts.flat
    rw [areFlatAlternatives] at hflats ⊢
    simp [hflat, hmoved, hflats, hmoveds]

theorem ValuesUnnested.flat {values values' : List EnumValue} {moved : List Node} :
    ValuesUnnested values values' moved → areFlatValues values' = true ∧ areFlatNodes moved = true
  | .nil => ⟨rfl, rfl⟩
  | .cons _ _ _ ht hvalues => by
    obtain ⟨hflat, hmoved⟩ := ht.flat
    obtain ⟨hflats, hmoveds⟩ := hvalues.flat
    rw [areFlatValues] at hflats ⊢
    simp [hflat, hmoved, hflats, hmoveds]

end

theorem NodesUnnested.flat {nodes stays : List Node} (h : NodesUnnested nodes stays moved) :
    areFlatNodes stays = true ∧ areFlatNodes moved = true := by
  induction h with
  | nil => exact ⟨rfl, rfl⟩
  | struct hbody _ ih => simp [areFlatNodes, isFlatNode, hbody.flat, ih]
  | enum hvalues _ ih => simp [areFlatNodes, isFlatNode, hvalues.flat, ih]
  | oneof halts _ ih => simp [areFlatNodes, isFlatNode, halts.flat, ih]
  | space _ _ _ ihinner ih => simp [areFlatNodes, isFlatNode, ihinner, ih]
  | service _ _ ih => simp [areFlatNodes, isFlatNode, ih]

theorem flat_flatten (m : Module) : Flat (flatten m).1 := by
  obtain ⟨stays, moved, heq, hnodes⟩ := flatten_unnested m
  rw [heq, Flat, areFlatNodes_append, hnodes.flat.1, hnodes.flat.2]
  rfl

/-! ### What is flat stays as it is -/

mutual

theorem TypeUnnested.eq_self {t t' : TypeExpr} {moved : List Node} : TypeUnnested t t' moved →
    isFlatType t = true → t' = t ∧ moved = []
  | .missing, _ => ⟨rfl, rfl⟩
  | .primitive _ _, _ => ⟨rfl, rfl⟩
  | .reference _ _, _ => ⟨rfl, rfl⟩
  | .emptyInline, _ => ⟨rfl, rfl⟩
  | .indirection k helem, hflat => by
    obtain ⟨rfl, rfl⟩ := helem.eq_self hflat
    exact ⟨rfl, rfl⟩
  | .generic k len hargs, hflat => by
    obtain ⟨rfl, rfl⟩ := hargs.eq_self hflat
    exact ⟨rfl, rfl⟩
  | .inline _ _, hflat => by simp [isFlatType] at hflat

theorem TypesUnnested.eq_self {ts ts' : List TypeExpr} {moved : List Node} :
    TypesUnnested ts ts' moved → areFlatTypes ts = true → ts' = ts ∧ moved = []
  | .nil, _ => ⟨rfl, rfl⟩
  | .cons ht hts, hflat => by
    rw [areFlatTypes, Bool.and_eq_true] at hflat
    obtain ⟨rfl, rfl⟩ := ht.eq_self hflat.1
    obtain ⟨rfl, rfl⟩ := hts.eq_self hflat.2
    exact ⟨rfl, rfl⟩

end

theorem AlternativesUnnested.eq_self {alts alts' : List Alternative}
    (h : AlternativesUnnested alts alts' moved) (hflat : areFlatAlternatives alts = true) :
    alts' = alts ∧ moved = [] := by
  induction alts generalizing alts' moved with
  | nil =>
    cases h
    exact ⟨rfl, rfl⟩
  | cons _ _ ih =>
    cases h with
    | cons name attributes ht halts =>
      rw [areFlatAlternatives, List.all_cons, Bool.and_eq_true] at hflat
      obtain ⟨rfl, rfl⟩ := ht.eq_self hflat.1
      obtain ⟨rfl, rfl⟩ := ih halts hflat.2
      exact ⟨rfl, rfl⟩

theorem ValuesUnnested.eq_self {values values' : List EnumValue}
    (h : ValuesUnnested values values' moved) (hflat : areFlatValues values = true) :
    values' = values ∧ moved = [] := by
  induction values generalizing values' moved with
  | nil =>
    cases h
    exact ⟨rfl, rfl⟩
  | cons _ _ ih =>
    cases h with
    | cons name number attributes ht hvalues =>
      rw [areFlatValues, List.all_cons, Bool.and_eq_true] at hflat
      obtain ⟨rfl, rfl⟩ := ht.eq_self hflat.1
      obtain ⟨rfl, rfl⟩ := ih hvalues hflat.2
      exact ⟨rfl, rfl⟩

theorem MembersUnnested.eq_self {ms ms' : List Member} (h : MembersUnnested ms ms' moved)
    (hflat : ms.all isFlatMember = true) : ms' = ms ∧ moved = [] := by
  induction ms generalizing ms' moved with
  | nil =>
    cases h
    exact ⟨rfl, rfl⟩
  | cons m ms ih =>
    rw [List.all_cons, Bool.and_eq_true] at hflat
    -- a flat list of members has no enums or structs, so only two ways are left
    cases h with
    | field name attributes ht hms =>
      obtain ⟨rfl, rfl⟩ := ht.eq_self hflat.1
      obtain ⟨rfl, rfl⟩ := ih hms hflat.2
      exact ⟨rfl, rfl⟩
    | oneof name attributes halts hms =>
      obtain ⟨rfl, rfl⟩ := halts.eq_self hflat.1
      obtain ⟨rfl, rfl⟩ := ih hms hflat.2
      exact ⟨rfl, rfl⟩
    | _ => simp [isFlatMember] at hflat

theorem NodesUnnested.eq_self {nodes stays : List Node} (h : NodesUnnested nodes stays moved)
    (hflat : areFlatNodes nodes = true) : stays = nodes ∧ moved = [] := by
  induction h with
  | nil => exact ⟨rfl, rfl⟩
  | @struct s _ _ _ _ _ hbody _ ih =>
    rw [areFlatNodes, Bool.and_eq_true] at hflat
    obtain ⟨rfl, rfl⟩ := hbody.eq_self hflat.1
    obtain ⟨rfl, rfl⟩ := ih hflat.2
    cases s
    exact ⟨rfl, rfl⟩
  | @enum e _ _ _ _ _ hvalues _ ih =>
    rw [areFlatNodes, Bool.and_eq_true] at hflat
    obtain ⟨rfl, rfl⟩ := hvalues.eq_self hflat.1
    obtain ⟨rfl, rfl⟩ := ih hflat.2
    cases e
    exact ⟨rfl, rfl⟩
  | @oneof o _ _ _ _ _ halts _ ih =>
    rw [areFlatNodes, Bool.and_eq_true] at hflat
    obtain ⟨rfl, rfl⟩ := halts.eq_self hflat.1
    obtain ⟨rfl, rfl⟩ := ih hflat.2
    cases o
    exact ⟨rfl, rfl⟩
  | space name _ _ ihinner ih =>
    rw [areFlatNodes, Bool.and_eq_true] at hflat
    obtain ⟨rfl, rfl⟩ := ihinner hflat.1
    obtain ⟨rfl, rfl⟩ := ih hflat.2
    exact ⟨rfl, rfl⟩
  | service s _ ih =>
    obtain ⟨rfl, rfl⟩ := ih hflat
    exact ⟨rfl, rfl⟩

theorem flatten_of_flat {m : Module} (hflat : Flat m) : (flatten m).1 = m := by
  obtain ⟨stays, moved, heq, hnodes⟩ := flatten_unnested m
  obtain ⟨rfl, rfl⟩ := hnodes.eq_self hflat
  exact heq

/-- Flattening makes a module flat and changes no module that is flat, so a second run
changes nothing. -/
theorem flatten_reaches_flat_form (m : Module) :
    Flat (flatten m).1 ∧ ((flatten m).1 = m ↔ Flat m) ∧
      (flatten (flatten m).1).1 = (flatten m).1 := by
  refine ⟨flat_flatten m, ⟨?_, flatten_of_flat⟩, flatten_of_flat (flat_flatten m)⟩
  intro hfixed
  rw [← hfixed]
  exact flat_flatten m

end Schemata.Normal
