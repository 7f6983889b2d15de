import Schemata.Proofs.Normal.EmptyNames
import Schemata.Proofs.Normal.Inventory

/-!
When flattening keeps a module valid. A struct without a name or a slot gives its members to
its parent, and a slot that both have is then there twice: the check looks at the slots of each
struct on its own. And a struct without a name asks for one made of the name of its owner and
of its place, which is empty when both are; it gets the empty name, unless that is in use.
Nothing else can go wrong.
-/

namespace Schemata.Normal

open List

variable {moved : List Node}

/-! ### Slots once nothing is nested -/

def Label.name : Label → String
  | .slot name _ => name
  | .oneof o => o.name
  | .enum e => e.name

/-- The slots of a struct with these members, among them those of the structs that give their
members to it. -/
def splicedSlots (ms : List Member) : List String :=
  ((slotsOfMembers ms).map Label.name).filter (· ≠ "")

/-- The struct keeps its slots apart, also from those it is given. -/
def SlotsApart (s : Struct) : Prop := (splicedSlots s.members).Nodup

instance (s : Struct) : Decidable (SlotsApart s) := inferInstanceAs (Decidable (List.Nodup _))

theorem slots_of_flat {ms : List Member} (hflat : ms.all isFlatMember = true) :
    ms.map Member.slot = (slotsOfMembers ms).map Label.name := by
  induction ms with
  | nil => rfl
  | cons m ms ih =>
    rw [all_cons, Bool.and_eq_true] at hflat
    cases m with
    | field f => rw [slotsOfMembers, map_cons, map_cons, ih hflat.2]; rfl
    | oneof o => rw [slotsOfMembers, map_cons, map_cons, ih hflat.2]; rfl
    | _ => simp [isFlatMember] at hflat

/-- What the members fill once they are unnested. -/
theorem MembersUnnested.slotNames_eq {ms ms' : List Member} (h : MembersUnnested ms ms' moved) :
    slotNames ms' = splicedSlots ms := by
  rw [slotNames, slots_of_flat h.flat.1, h.slots, splicedSlots]

theorem splicedSlots_splice {s : Struct} (hs : s.isNamed = false) (hvar : s.varName = "")
    (ms : List Member) :
    splicedSlots (.struct s :: ms) = splicedSlots s.members ++ splicedSlots ms := by
  cases s
  rw [splicedSlots, slotsOfMembers, if_neg (not_not_intro hvar), hs]
  simp [splicedSlots, slotsOfStruct]

/-- The slots of the other members come after those of the first. -/
theorem splicedSlots_sublist (m : Member) (ms : List Member) :
    (splicedSlots ms).Sublist (splicedSlots (m :: ms)) := by
  have hsuffix : slotsOfMembers (m :: ms) = slotsOfMembers [m] ++ slotsOfMembers ms :=
    slotsOfMembers_append [m] ms
  rw [splicedSlots, splicedSlots, hsuffix, map_append, filter_append]
  exact sublist_append_right _ _

/-! ### The structs of a module -/

def Part.struct? : Part → Option Struct
  | .member s | .inline s => some s
  | .field _ | .oneof _ | .enum _ => none

def structsIn (parts : List Part) : List Struct := parts.filterMap Part.struct?

mutual

def structsOfNode : Node → List Struct
  | .struct s => structsIn (partsOfMembers s.members) ++ [s]
  | .enum e => structsIn (partsOfValues e.values)
  | .oneof o => structsIn (partsOfAlternatives o.alternatives)
  | .space _ inner => structsOfNodes inner
  | .service _ => []

/-- Every struct of a list of nodes: the nodes themselves, those of the namespaces there, and
what is nested in them at any depth. -/
def structsOfNodes : List Node → List Struct
  | [] => []
  | d :: rest => structsOfNode d ++ structsOfNodes rest

end

/-- The structs among parts keep their slots apart. -/
def ApartIn (parts : List Part) : Prop := ∀ s ∈ structsIn parts, SlotsApart s

@[simp] theorem apartIn_nil : ApartIn [] := by simp [ApartIn, structsIn]

@[simp] theorem apartIn_append (ps qs : List Part) :
    ApartIn (ps ++ qs) ↔ ApartIn ps ∧ ApartIn qs := by
  rw [ApartIn, structsIn, filterMap_append, forall_mem_append]
  rfl

@[simp] theorem apartIn_cons (p : Part) (ps : List Part) :
    ApartIn (p :: ps) ↔ (∀ s, p.struct? = some s → SlotsApart s) ∧ ApartIn ps := by
  cases h : p.struct? <;> simp [ApartIn, structsIn, h]

/-! ### What is unnested is sound -/

theorem ValuesUnnested.valueNames_eq {values values' : List EnumValue}
    (h : ValuesUnnested values values' moved) : valueNames values' = valueNames values := by
  have hnames := congrArg (List.map Prod.fst) h.outline
  simp only [valuesOutline, map_map] at hnames
  exact hnames

theorem AlternativesUnnested.ne_nil {alts alts' : List Alternative}
    (h : AlternativesUnnested alts alts' moved) (hne : alts ≠ []) : alts' ≠ [] := by
  cases alts with
  | nil => exact absurd rfl hne
  | cons => cases h; simp

theorem TypeUnnested.ne_missing {t t' : TypeExpr} (h : TypeUnnested t t' moved)
    (hne : t ≠ .missing) : t' ≠ .missing := by
  cases t with
  | missing => exact absurd rfl hne
  | _ => cases h; simp [TypeExpr.ref]

theorem TypesUnnested.length_eq {ts ts' : List TypeExpr} (h : TypesUnnested ts ts' moved) :
    ts'.length = ts.length := by
  induction ts generalizing ts' moved with
  | nil =>
    cases h
    rfl
  | cons t ts ih =>
    cases h with
    | cons _ hts => rw [length_cons, length_cons, ih hts]

/-- Of something sound with these parts `left` is to hold after `moved` came out of it: this and
what was moved out is sound exactly if the structs moved out have names and those among the
parts keep their slots apart. -/
def StaysSound (left : Prop) (moved : List Node) (parts : List Part) : Prop :=
  left ∧ SoundNodes moved ↔ Titled moved ∧ ApartIn parts

namespace StaysSound

variable {left left₁ left₂ : Prop} {moved₁ moved₂ : List Node} {parts parts₁ parts₂ : List Part}

theorem unchanged (h : left) : StaysSound left [] [] := by
  simp [StaysSound, SoundNodes, Titled, h]

theorem append (first : StaysSound left₁ moved₁ parts₁) (second : StaysSound left₂ moved₂ parts₂) :
    StaysSound (left₁ ∧ left₂) (moved₁ ++ moved₂) (parts₁ ++ parts₂) := by
  rw [StaysSound, soundNodes_append, titled_append, apartIn_append, and_and_and_comm]
  exact (and_congr first second).trans and_and_and_comm

/-- What leaves nothing behind comes before something else. -/
theorem behind (first : StaysSound True moved₁ parts₁) (second : StaysSound left moved₂ parts₂) :
    StaysSound left (moved₁ ++ moved₂) (parts₁ ++ parts₂) := by
  have hboth := first.append second
  rwa [true_and] at hboth

/-- One more condition that holds anyway. -/
theorem and_left {also : Prop} (h : StaysSound left moved parts) (halso : also) :
    StaysSound (also ∧ left) moved parts := by
  rw [StaysSound, and_iff_right halso]
  exact h

/-- A reference to what was moved out is left. -/
theorem leaves (h : StaysSound True moved parts) (hleft : SoundNodes moved → left) :
    StaysSound left moved parts := by
  rw [StaysSound, true_and] at h
  rw [StaysSound, ← h]
  exact ⟨And.right, fun hsound => ⟨hleft hsound, hsound⟩⟩

/-- One more part that is no struct, or whose slots are known to be apart. -/
theorem part (h : StaysSound left moved parts) (p : Part)
    (hp : ∀ s, p.struct? = some s → SlotsApart s) : StaysSound left moved (parts ++ [p]) := by
  rw [StaysSound, apartIn_append, and_iff_left ((apartIn_cons p []).mpr ⟨hp, apartIn_nil⟩)]
  exact h

/-- A declaration stands behind what came out of it, with what is left. -/
theorem declare {d : Node} (h : StaysSound left moved parts) (hd : SoundNode d ↔ left)
    (htitled : TitledNode d) : StaysSound True (moved ++ [d]) parts := by
  rw [StaysSound, true_and, soundNodes_append, titled_append]
  simp only [SoundNodes, Titled, htitled, hd, and_true]
  rw [and_comm]
  exact h

end StaysSound

/-- A type that may be missing, as that of an alternative or a payload. -/
theorem TypeUnnested.staysSound_optional {t t' : TypeExpr} (h : TypeUnnested t t' moved)
    (hsound : t = .missing ∨ SoundType t)
    (hiff : SoundType t → StaysSound (SoundType t') moved (partsOfType t)) :
    StaysSound (t' = .missing ∨ SoundType t') moved (partsOfType t) := by
  by_cases hmissing : t = .missing
  · subst hmissing
    cases h
    exact .unchanged (.inl rfl)
  · rw [StaysSound, or_iff_right (h.ne_missing hmissing)]
    exact hiff (hsound.resolve_left hmissing)

/-- A struct that was moved out is sound only if it got a name. -/
theorem StructUnnested.name_ne {s s' : Struct} (h : StructUnnested s s' moved)
    (hsound : SoundNodes moved) : s'.name ≠ "" := by
  cases h with
  | intro _ hanonymous _ _ =>
    rw [soundNodes_append, SoundNodes, SoundNode, soundStruct_iff, Struct.IsTitled,
      hanonymous] at hsound
    simpa using hsound.2.1.1

/-- The members of a struct are unnested, and it stands behind what came out of them. Among the
parts it counts as `p`. -/
theorem MembersUnnested.staysSound_struct (s s' : Struct) {p : Part}
    (hbody : MembersUnnested s.members s'.members moved) (hp : p.struct? = some s)
    (hmembers : SlotsApart s →
      StaysSound (SoundMembers s'.members) moved (partsOfMembers s.members)) :
    StaysSound True (moved ++ [.struct s']) (partsOfMembers s.members ++ [p]) := by
  simp only [StaysSound, soundNodes_append, SoundNodes, SoundNode, soundStruct_iff, titled_append,
    Titled, TitledNode, apartIn_append, apartIn_cons, apartIn_nil, hp, hbody.slotNames_eq,
    Option.some.injEq, forall_eq', SlotsApart] at hmembers ⊢
  tauto

mutual

theorem TypeUnnested.staysSound {t t' : TypeExpr} {moved : List Node} : TypeUnnested t t' moved →
    SoundType t → StaysSound (SoundType t') moved (partsOfType t)
  | .missing, hsound => hsound.elim
  | .emptyInline, hsound => hsound.elim
  | .primitive _ _, hsound => .unchanged hsound
  | .reference _ _, hsound => .unchanged hsound
  | .indirection _ helem, hsound => (helem.staysSound hsound.2).and_left hsound.1
  | .generic _ _ hargs, hsound => by
    refine (hargs.staysSound hsound.2).and_left ?_
    rw [hargs.length_eq]
    exact hsound.1
  | .inline hstruct _, hsound => by
    rw [partsOfType, partsOfStruct_eq]
    exact (hstruct.staysSound hsound rfl).leaves hstruct.name_ne

theorem TypesUnnested.staysSound {ts ts' : List TypeExpr} {moved : List Node} :
    TypesUnnested ts ts' moved → SoundTypes ts → StaysSound (SoundTypes ts') moved (partsOfTypes ts)
  | .nil, _ => .unchanged trivial
  | .cons ht hts, hsound => (ht.staysSound hsound.1).append (hts.staysSound hsound.2)

theorem StructUnnested.staysSound : ∀ {s s' : Struct} {moved : List Node} {p : Part},
    StructUnnested s s' moved → SoundStruct s → p.struct? = some s →
      StaysSound True moved (partsOfMembers s.members ++ [p])
  | s, s', _, _, .intro _ _ _ hbody, hsound, hp =>
    hbody.staysSound_struct s s' hp (hbody.staysSound ((soundStruct_iff s).mp hsound).2.2)

theorem MembersUnnested.staysSound {ms ms' : List Member} {moved : List Node} :
    MembersUnnested ms ms' moved → SoundMembers ms → (splicedSlots ms).Nodup →
      StaysSound (SoundMembers ms') moved (partsOfMembers ms)
  | .nil, _, _ => .unchanged trivial
  | .field _ _ ht hms, hsound, hapart => by
    have hrest := hms.staysSound hsound.2 (hapart.sublist (splicedSlots_sublist _ _))
    rw [partsOfMembers, append_cons]
    exact ((ht.staysSound hsound.1).part (.field _) nofun).append hrest
  | .oneof _ _ halts hms, hsound, hapart => by
    have hrest := hms.staysSound hsound.2 (hapart.sublist (splicedSlots_sublist _ _))
    have hone := (halts.staysSound hsound.1.2).and_left (halts.ne_nil hsound.1.1)
    rw [partsOfMembers, append_cons]
    exact (hone.part (.oneof _) nofun).append hrest
  | .enum (e := e) _ hvalues hms, hsound, hapart => by
    have hrest := hms.staysSound hsound.2 (hapart.sublist (splicedSlots_sublist _ _))
    obtain ⟨hnames, hpayloads⟩ := (soundMember_enum e).mp hsound.1
    rw [← hvalues.valueNames_eq] at hnames
    have hmoved := (hvalues.staysSound hpayloads).declare (d := .enum _) (and_iff_right hnames) trivial
    rw [partsOfMembers_enum, append_cons, append_cons (partsOfValues _)]
    exact (hmoved.part (.enum e) nofun).behind hrest
  | .splice (s := s) hs hvar hgiven hms, hsound, hapart => by
    -- the slots the struct gives away are among those of its parent
    rw [splicedSlots_splice hs hvar] at hapart
    have hown := hapart.sublist (sublist_append_left _ _)
    have hrest := hms.staysSound hsound.2 (hapart.sublist (sublist_append_right _ _))
    have hbody := hgiven.staysSound ((soundStruct_iff s).mp hsound.1).2.2 hown
    rw [partsOfMembers, partsOfStruct_eq, append_cons, soundMembers_append]
    exact (hbody.part (.member s) fun _ heq => Option.some.inj heq ▸ hown).append hrest
  | .slot _ hstruct _ hms, hsound, hapart => by
    have hrest := hms.staysSound hsound.2 (hapart.sublist (splicedSlots_sublist _ _))
    rw [partsOfMembers, partsOfStruct_eq, append_cons]
    exact ((hstruct.staysSound hsound.1 rfl).leaves hstruct.name_ne).append hrest
  | .named _ _ hstruct _ hms, hsound, hapart => by
    have hrest := hms.staysSound hsound.2 (hapart.sublist (splicedSlots_sublist _ _))
    rw [partsOfMembers, partsOfStruct_eq, append_cons]
    exact (hstruct.staysSound hsound.1 rfl).behind hrest

theorem AlternativesUnnested.staysSound {alts alts' : List Alternative} {moved : List Node} :
    AlternativesUnnested alts alts' moved → SoundAlternatives alts →
      StaysSound (SoundAlternatives alts') moved (partsOfAlternatives alts)
  | .nil, _ => .unchanged trivial
  | .cons _ _ ht halts, hsound =>
    (ht.staysSound_optional hsound.1 ht.staysSound).append (halts.staysSound hsound.2)

theorem ValuesUnnested.staysSound {values values' : List EnumValue} {moved : List Node} :
    ValuesUnnested values values' moved → SoundValues values →
      StaysSound (SoundValues values') moved (partsOfValues values)
  | .nil, _ => .unchanged trivial
  | .cons _ _ _ ht hvalues, hsound =>
    (ht.staysSound_optional hsound.1 ht.staysSound).append (hvalues.staysSound hsound.2)

end

/-! ### Lists of nodes -/

/-- A node behind what came out of it, and the rest of the list behind what came out of that. -/
theorem sound_cons_iff {d : Node} {stays moved₁ moved₂ : List Node} {apart₁ apart₂ : Prop}
    (first : SoundNodes (moved₁ ++ [d]) ↔ Titled (moved₁ ++ [d]) ∧ apart₁)
    (rest : SoundNodes (moved₂ ++ stays) ↔ Titled (moved₂ ++ stays) ∧ apart₂) :
    SoundNodes (moved₁ ++ moved₂ ++ d :: stays) ↔
      Titled (moved₁ ++ moved₂ ++ d :: stays) ∧ apart₁ ∧ apart₂ := by
  rw [← singleton_append]
  simp only [soundNodes_append, titled_append] at first rest ⊢
  rw [and_and_and_comm, first, rest, and_and_and_comm, and_and_and_comm (a := Titled moved₁)]

theorem NodesUnnested.sound_iff {nodes stays moved : List Node} (h : NodesUnnested nodes stays moved)
    (hsound : SoundNodes nodes) :
    SoundNodes (moved ++ stays) ↔
      Titled (moved ++ stays) ∧ ∀ s ∈ structsOfNodes nodes, SlotsApart s := by
  induction h with
  | nil => simp [SoundNodes, Titled, structsOfNodes]
  | @struct s members _ _ _ _ hbody _ ih =>
    have hmembers := hbody.staysSound ((soundStruct_iff s).mp hsound.1).2.2
    have hroot := hbody.staysSound_struct s { s with members } (p := .member s) rfl hmembers
    rw [StaysSound, true_and, ApartIn, structsIn, filterMap_append] at hroot
    rw [structsOfNodes, forall_mem_append]
    exact sound_cons_iff hroot (ih hsound.2)
  | @enum e values _ _ _ _ hvalues _ ih =>
    have hnames : (valueNames values).Nodup := hvalues.valueNames_eq ▸ hsound.1.1
    have hroot := (hvalues.staysSound hsound.1.2).declare (d := .enum { e with values })
      (and_iff_right hnames) trivial
    rw [StaysSound, true_and] at hroot
    rw [structsOfNodes, forall_mem_append]
    exact sound_cons_iff hroot (ih hsound.2)
  | @oneof o alternatives _ _ _ _ halts _ ih =>
    have hroot := (halts.staysSound hsound.1.2).declare (d := .oneof { o with alternatives })
      (and_iff_right (halts.ne_nil hsound.1.1)) trivial
    rw [StaysSound, true_and] at hroot
    rw [structsOfNodes, forall_mem_append]
    exact sound_cons_iff hroot (ih hsound.2)
  | @space name inner inside front _ _ moved _ _ ihinner ih =>
    have hinner := ihinner hsound.1
    have hroot : SoundNodes ([] ++ [.space name (front ++ inside)]) ↔
        Titled ([] ++ [.space name (front ++ inside)]) ∧ ∀ s ∈ structsOfNodes inner, SlotsApart s := by
      simpa only [nil_append, SoundNodes, SoundNode, Titled, TitledNode, and_true] using hinner
    rw [structsOfNodes, forall_mem_append]
    exact sound_cons_iff hroot (ih hsound.2)
  | service s _ ih =>
    have hroot : SoundNodes ([] ++ [.service s]) ↔ Titled ([] ++ [.service s]) ∧ True := by
      simp [SoundNodes, SoundNode, Titled, TitledNode]
    have hboth := sound_cons_iff hroot (ih hsound.2)
    rwa [true_and] at hboth

/-! ### The whole module -/

theorem titled_of_sound : ∀ nodes : List Node, SoundNodes nodes → Titled nodes
  | [], _ => trivial
  | .struct s :: rest, hsound =>
    ⟨((soundStruct_iff s).mp hsound.1).1, titled_of_sound rest hsound.2⟩
  | .space _ inner :: rest, hsound =>
    ⟨titled_of_sound inner hsound.1, titled_of_sound rest hsound.2⟩
  | .enum _ :: rest, hsound => ⟨trivial, titled_of_sound rest hsound.2⟩
  | .oneof _ :: rest, hsound => ⟨trivial, titled_of_sound rest hsound.2⟩
  | .service _ :: rest, hsound => ⟨trivial, titled_of_sound rest hsound.2⟩

/-- A valid module stays valid when it is flattened exactly if every struct in it keeps its slots
apart from those it is given, and no struct asks for the empty name while that is free. -/
theorem flatten_valid_iff (m : Module) (hvalid : m.issues = []) :
    (flatten m).1.issues = [] ↔
      (∀ s ∈ structsOfNodes m.nodes, SlotsApart s) ∧
        ("" ∈ namesOfNodes m.nodes ∨ asksOfNodes m.nodes = false) := by
  rw [issues_eq_nil_iff] at hvalid ⊢
  obtain ⟨stays, moved, heq, hnodes⟩ := flatten_unnested m
  have htitled := titled_flatten_iff m (titled_of_sound m.nodes hvalid)
  rw [heq] at htitled ⊢
  rw [hnodes.sound_iff hvalid, htitled, and_comm]

/-- An order with a number and a part whose members belong to it; the part has the slot. -/
def orderWithPart (slot : String) : Module where
  nodes := [.struct { name := "Order", members := [
    .field ⟨"id", .prim .int64, []⟩,
    .struct { isAnonymous := true, members := [
      .field ⟨slot, .inline { isAnonymous := true, members := [
        .field ⟨"sku", .prim .string, []⟩] }, []⟩] }] }]

theorem orderWithPart_valid :
    (orderWithPart "line").issues = [] ∧ (flatten (orderWithPart "line")).1.issues = [] := by
  have hvalid : (orderWithPart "line").issues = [] := by cbv
  have hapart : ∀ s ∈ structsOfNodes (orderWithPart "line").nodes, SlotsApart s := by decide
  exact ⟨hvalid, (flatten_valid_iff _ hvalid).mpr ⟨hapart, .inr (by decide)⟩⟩

/-- The part fills a slot that the order fills as well. -/
theorem orderWithPart_invalid :
    (orderWithPart "id").issues = [] ∧
      (flatten (orderWithPart "id")).1.issues = [⟨"Order.id", .duplicateMember⟩] := by
  exact ⟨by cbv, by cbv⟩

end Schemata.Normal
