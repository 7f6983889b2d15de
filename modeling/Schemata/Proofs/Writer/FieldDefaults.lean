import Schemata.Proofs.Normal.FlattenValidity
import Schemata.Proofs.Writer.ImportLines
import Schemata.Proofs.Writer.Messages

/-!
Defaults in Python classes. A class is refused when an attribute without a default follows one
that has one. Every row of the built-in table has a default, and a oneof defaults to nothing, so
of the types that a valid schema has only those that are known by their source text are left
without one: the classes are in order exactly if the fields of such types come first.
-/

namespace Schemata

open Emission Schemata.Normal List

variable {d : Node} {s : Struct} {m : Module} {c : Context}

/-! ### Filled templates that begin with a text -/

/-- Whether a template begins with a character of its own. -/
def Template.beginsPlain (template : String) : Bool :=
  match pieces template with
  | .literal _ :: _ => true
  | _ => false

theorem Template.substitute_ne_empty_of_beginsPlain {template : String}
    (h : beginsPlain template = true) (args : List String) (missing : String) :
    substitute template args missing ≠ "" := by
  rw [beginsPlain] at h
  rw [substitute]
  split at h
  next c rest heq =>
    rw [heq, map_cons, String.join_cons, Piece.fill]
    intro hempty
    exact absurd (String.append_eq_empty_iff.mp hempty).1 (by simp)
  next => cases h

/-! ### The types of fields once nothing is nested -/

namespace Normal

/-- A type that is there, and a container only of a kind that is known. -/
def IsWhole : TypeExpr → Prop
  | .missing => False
  | .generic k _ _ => k ≠ .unknown
  | _ => True

def WholeMembers (ms : List Member) : Prop := ∀ f, .field f ∈ ms → IsWhole f.type

/-- The fields of the structs that are declared have whole types. -/
def WholeNodes (nodes : List Node) : Prop :=
  ∀ s, .struct s ∈ declarations nodes → WholeMembers s.members

theorem wholeNodes_nil : WholeNodes [] := by simp [WholeNodes, declarations]

theorem wholeNodes_append {xs ys : List Node} (hxs : WholeNodes xs) (hys : WholeNodes ys) :
    WholeNodes (xs ++ ys) := by
  intro s hs
  rw [declarations_append, mem_append] at hs
  exact hs.elim (hxs s) (hys s)

theorem wholeNodes_cons {rest : List Node} (hd : WholeNodes [d]) (hrest : WholeNodes rest) :
    WholeNodes (d :: rest) := wholeNodes_append hd hrest

theorem wholeNodes_struct (hs : WholeMembers s.members) : WholeNodes [.struct s] := by
  intro s' hs'
  rw [declarations, declarationsOf, declarations, append_nil, mem_singleton] at hs'
  cases hs'
  exact hs

theorem wholeNodes_other (hd : ∀ s, .struct s ∉ declarationsOf d) : WholeNodes [d] := by
  intro s hs
  rw [declarations, declarations, append_nil] at hs
  exact absurd hs (hd s)

theorem TypeUnnested.isWhole {t t' : TypeExpr} {moved : List Node} (h : TypeUnnested t t' moved)
    (hsound : SoundType t) : IsWhole t' := by
  cases h with
  | missing => exact hsound
  | generic k len hargs =>
    rintro rfl
    exact absurd hsound.1 (by simp [arityProblems, Kind.isContainer])
  | _ => trivial

mutual

theorem TypeUnnested.wholeNodes {t t' : TypeExpr} {moved : List Node} : TypeUnnested t t' moved →
    t = .missing ∨ SoundType t → WholeNodes moved
  | .missing, _ => wholeNodes_nil
  | .emptyInline, _ => wholeNodes_nil
  | .primitive _ _, _ => wholeNodes_nil
  | .reference _ _, _ => wholeNodes_nil
  | .indirection _ helem, hsound =>
    helem.wholeNodes (.inr (hsound.resolve_left (by simp)).2)
  | .generic _ _ hargs, hsound => hargs.wholeNodes (hsound.resolve_left (by simp)).2
  | .inline hstruct _, hsound => hstruct.wholeNodes (hsound.resolve_left (by simp))

theorem TypesUnnested.wholeNodes {ts ts' : List TypeExpr} {moved : List Node} :
    TypesUnnested ts ts' moved → SoundTypes ts → WholeNodes moved
  | .nil, _ => wholeNodes_nil
  | .cons ht hts, hsound =>
    wholeNodes_append (ht.wholeNodes (.inr hsound.1)) (hts.wholeNodes hsound.2)

theorem StructUnnested.wholeNodes : ∀ {s s' : Struct} {moved : List Node},
    StructUnnested s s' moved → SoundStruct s → WholeNodes moved
  | s, _, _, .intro _ _ _ hbody, hsound => by
    obtain ⟨hmembers, hmoved⟩ := hbody.whole ((soundStruct_iff s).mp hsound).2.2
    exact wholeNodes_append hmoved (wholeNodes_struct hmembers)

theorem MembersUnnested.whole {ms ms' : List Member} {moved : List Node} :
    MembersUnnested ms ms' moved → SoundMembers ms → WholeMembers ms' ∧ WholeNodes moved
  | .nil, _ => ⟨by simp [WholeMembers], wholeNodes_nil⟩
  | .field _ _ ht hms, hsound => by
    obtain ⟨hrest, hmoved⟩ := hms.whole hsound.2
    refine ⟨?_, wholeNodes_append (ht.wholeNodes (.inr hsound.1)) hmoved⟩
    simpa [WholeMembers] using ⟨ht.isWhole hsound.1, hrest⟩
  | .oneof _ _ halts hms, hsound => by
    obtain ⟨hrest, hmoved⟩ := hms.whole hsound.2
    refine ⟨?_, wholeNodes_append (halts.wholeNodes hsound.1.2) hmoved⟩
    simpa [WholeMembers] using hrest
  | .enum (e := e) _ hvalues hms, hsound => by
    obtain ⟨hrest, hmoved⟩ := hms.whole hsound.2
    have hpayloads := hvalues.wholeNodes ((soundMember_enum e).mp hsound.1).2
    exact ⟨hrest, wholeNodes_append hpayloads
      (wholeNodes_cons (wholeNodes_other (by simp [declarationsOf])) hmoved)⟩
  | .splice (s := s) _ _ hgiven hms, hsound => by
    obtain ⟨hrest, hmoved⟩ := hms.whole hsound.2
    obtain ⟨hown, hfront⟩ := hgiven.whole ((soundStruct_iff s).mp hsound.1).2.2
    refine ⟨?_, wholeNodes_append hfront hmoved⟩
    intro f hf
    exact (mem_append.mp hf).elim (hown f) (hrest f)
  | .slot _ hstruct _ hms, hsound => by
    obtain ⟨hrest, hmoved⟩ := hms.whole hsound.2
    refine ⟨?_, wholeNodes_append (hstruct.wholeNodes hsound.1) hmoved⟩
    simpa [WholeMembers, TypeExpr.ref, IsWhole] using hrest
  | .named _ _ hstruct _ hms, hsound => by
    obtain ⟨hrest, hmoved⟩ := hms.whole hsound.2
    exact ⟨hrest, wholeNodes_append (hstruct.wholeNodes hsound.1) hmoved⟩

theorem AlternativesUnnested.wholeNodes {alts alts' : List Alternative} {moved : List Node} :
    AlternativesUnnested alts alts' moved → SoundAlternatives alts → WholeNodes moved
  | .nil, _ => wholeNodes_nil
  | .cons _ _ ht halts, hsound =>
    wholeNodes_append (ht.wholeNodes hsound.1) (halts.wholeNodes hsound.2)

theorem ValuesUnnested.wholeNodes {values values' : List EnumValue} {moved : List Node} :
    ValuesUnnested values values' moved → SoundValues values → WholeNodes moved
  | .nil, _ => wholeNodes_nil
  | .cons _ _ _ ht hvalues, hsound =>
    wholeNodes_append (ht.wholeNodes hsound.1) (hvalues.wholeNodes hsound.2)

end

theorem NodesUnnested.wholeNodes {nodes stays moved : List Node}
    (h : NodesUnnested nodes stays moved) (hsound : SoundNodes nodes) :
    WholeNodes moved ∧ WholeNodes stays := by
  induction h with
  | nil => exact ⟨wholeNodes_nil, wholeNodes_nil⟩
  | @struct s _ _ _ _ _ hbody _ ih =>
    obtain ⟨hmoved, hstays⟩ := ih hsound.2
    obtain ⟨hmembers, hfront⟩ := hbody.whole ((soundStruct_iff s).mp hsound.1).2.2
    exact ⟨wholeNodes_append hfront hmoved, wholeNodes_cons (wholeNodes_struct hmembers) hstays⟩
  | enum hvalues _ ih =>
    obtain ⟨hmoved, hstays⟩ := ih hsound.2
    exact ⟨wholeNodes_append (hvalues.wholeNodes hsound.1.2) hmoved,
      wholeNodes_cons (wholeNodes_other (by simp [declarationsOf])) hstays⟩
  | oneof halts _ ih =>
    obtain ⟨hmoved, hstays⟩ := ih hsound.2
    exact ⟨wholeNodes_append (halts.wholeNodes hsound.1.2) hmoved,
      wholeNodes_cons (wholeNodes_other (by simp [declarationsOf])) hstays⟩
  | space name _ _ ihinner ih =>
    obtain ⟨hmoved, hstays⟩ := ih hsound.2
    obtain ⟨hfront, hinside⟩ := ihinner hsound.1
    refine ⟨hmoved, wholeNodes_cons ?_ hstays⟩
    intro s hs
    rw [declarations, declarationsOf, declarations, append_nil] at hs
    exact wholeNodes_append hfront hinside s hs
  | service s _ ih =>
    obtain ⟨hmoved, hstays⟩ := ih hsound.2
    exact ⟨hmoved, wholeNodes_cons (wholeNodes_other (by simp [declarationsOf])) hstays⟩

/-- Of a valid module all fields have whole types once it is flat. -/
theorem wholeNodes_flatten (hvalid : m.issues = []) : WholeNodes (flatten m).1.nodes := by
  obtain ⟨stays, moved, heq, hnodes⟩ := flatten_unnested m
  obtain ⟨hmoved, hstays⟩ := hnodes.wholeNodes ((issues_eq_nil_iff m).mp hvalid)
  rw [heq]
  exact wholeNodes_append hmoved hstays

end Normal

namespace Writer.Python

/-! ### Which types have a default -/

/-- A type that only its source text describes. -/
def isOpaque : TypeExpr → Bool
  | .primitive .unknown _ => true
  | _ => false

theorem beginsPlain_builtin : ∀ k ∈ Kind.all, k ≠ .unknown →
    Template.beginsPlain ((lowererOf builtinTarget).defaultTemplate k) = true := by
  decide +kernel

theorem defaultTemplate_unknown : (lowererOf builtinTarget).defaultTemplate .unknown = "" := by
  rfl

theorem filled_ne_empty {k : Kind} (hk : k ≠ .unknown) (args : List Phrase) :
    (Phrase.filled k ((lowererOf builtinTarget).defaultTemplate k) args).text
      (lowererOf builtinTarget) ≠ "" :=
  Template.substitute_ne_empty_of_beginsPlain (beginsPlain_builtin k k.mem_all hk) _ _

theorem containerKind_ne_unknown {k : Kind} (hk : k ≠ .unknown) (len : Int64) :
    containerKind k len ≠ .unknown := by
  rw [containerKind]
  split
  · decide
  · exact hk

theorem isOpaque_primitive (k : Kind) (spelling : String) :
    isOpaque (.primitive k spelling) = decide (k = .unknown) := by
  cases k <;> rfl

theorem defaultPhrase_ne_empty_iff {type : TypeExpr} (htype : IsWhole type) :
    ((lowererOf builtinTarget).defaultPhrase type).text (lowererOf builtinTarget) ≠ "" ↔
      isOpaque type = false := by
  cases type with
  | missing => exact htype.elim
  | primitive k spelling =>
    rw [isOpaque_primitive, decide_eq_false_iff_not]
    change (lowererOf builtinTarget).defaultTemplate k ≠ "" ↔ k ≠ .unknown
    refine not_congr ⟨fun hempty => by_contra fun hk => ?_, ?_⟩
    · have hplain := beginsPlain_builtin k k.mem_all hk
      rw [hempty] at hplain
      exact absurd hplain (by decide)
    · rintro rfl
      exact defaultTemplate_unknown
  | reference name k => exact iff_of_true (filled_ne_empty (by decide) _) rfl
  | indirection k elem =>
    refine iff_of_true (filled_ne_empty ?_ _) rfl
    -- without a row of its own the indirection counts as an optional
    split
    next hrow =>
      rintro rfl
      exact absurd hrow (by decide)
    next => decide
  | generic k args len =>
    exact iff_of_true (filled_ne_empty (containerKind_ne_unknown htype len) _) rfl
  | _ => exact iff_of_true (filled_ne_empty (by decide) _) rfl

/-- A field is left without a default exactly if its type is opaque, whatever enums there are. -/
theorem default_ne_empty_iff (enums : List Enum) {type : TypeExpr} (htype : IsWhole type) :
    (defaultExpression builtinTarget enums type).text builtinTarget ≠ "" ↔
      isOpaque type = false := by
  have hphrase := defaultPhrase_ne_empty_iff htype
  cases type with
  | reference name k =>
    rw [defaultExpression]
    split
    next e _ =>
      split
      · exact hphrase
      · refine iff_of_true ?_ rfl
        split
        · decide
        · simp [Expression.text]
    next => exact hphrase
  | _ => exact hphrase

/-! ### The lines of a class -/

/-- An attribute of a class; its default is empty when it has none. -/
structure Slot where
  name : String
  type : String
  default : String

def Slot.line (indent : String) (x : Slot) : String :=
  indent ++ x.name ++ ": " ++ x.type ++ (if x.default = "" then "" else " = " ++ x.default) ++ "\n"

section

variable (t : Target) (enums : List Enum)

/-- The attribute that a member is written as; what is nested is not written. -/
def slot? : Member → Option Slot
  | .field f =>
    some ⟨attributeName t f.name, ((lowererOf t).phrase f.type).text (lowererOf t),
      (defaultExpression t enums f.type).text t⟩
  | .oneof o =>
    some ⟨attributeName t o.name, (unionExpression t (o.alternatives.map (·.type))).text t, "None"⟩
  | .enum _ | .struct _ => none

def slots (s : Struct) : List Slot := s.members.filterMap (slot? t enums)

def slotsText (indent : String) (xs : List Slot) : String := String.join (xs.map (Slot.line indent))

def classText (s : Struct) : String :=
  "\n\n@dataclass\nclass " ++ className t s.name ++ baseText t s.base ++ ":\n" ++
    slotsText "    " (slots t enums s) ++ if (slots t enums s).isEmpty then "    pass\n" else ""

theorem counts_typeText (n : Nat) (type : TypeExpr) :
    Counts n (((lowererOf t).phrase type).text (lowererOf t)) n (typeText t type) := by
  rw [Lowerer.text_phrase (isPlain_lowererOf t)]
  exact (counts_report _ _).bind (counts_scan _ _)

theorem counts_union (n : Nat) (types : List TypeExpr) :
    Counts n ((unionExpression t types).text t) n (union t types) :=
  counts_typeText t n (unionType types)

theorem counts_defaultText (n : Nat) (type : TypeExpr) :
    Counts n ((defaultExpression t enums type).text t) n (defaultText t enums type) := by
  intro s hs
  refine ⟨yields_defaultText t enums type s, ?_⟩
  rw [defaultText]
  cases enumDefault? t enums type <;> exact hs

theorem counts_counted (n : Nat) : Counts n () (n + 1) (discard nextNumber) := by
  intro s hs
  subst hs
  exact ⟨rfl, rfl⟩

theorem slotsText_singleton (indent : String) (x : Slot) :
    slotsText indent [x] = x.line indent := by
  simp [slotsText]

theorem counts_field (n : Nat) (f : Field) (type : Emit String) (c : Context) :
    Counts n (slotsText c.indent (slot? t enums (.field f)).toList) (n + 1)
      ((walker t enums).hooks.field f type c) := by
  have hfield : (walker t enums).hooks.field f type c = (do
      discard nextNumber
      let type ← typeText t f.type
      let default ← defaultText t enums f.type
      return c.indent ++ attributeName t f.name ++ ": " ++ type ++
        (if default = "" then "" else " = " ++ default) ++ "\n") := rfl
  rw [hfield, slot?, Option.toList_some, slotsText_singleton]
  dsimp only [Slot.line]
  refine (counts_counted n).bind ?_
  refine (counts_typeText t (n + 1) f.type).bind ?_
  refine (counts_defaultText t enums (n + 1) f.type).bind ?_
  exact Counts.pure _

theorem counts_oneof (hparent : c.parent.isNone = false) (n : Nat) (o : Oneof) :
    Counts n (slotsText c.indent (slot? t enums (.oneof o)).toList) (n + 1)
      ((walker t enums).hooks.oneof o c) := by
  have honeof : (walker t enums).hooks.oneof o c = (do
      let text ← union t (o.alternatives.map (·.type))
      discard nextNumber
      return c.indent ++ attributeName t o.name ++ ": " ++ text ++ " = None\n") := by
    simp only [walker, hooks, hparent, Bool.false_eq_true, if_false]
  have hline : " = None\n" = " = " ++ "None" ++ "\n" := by decide
  rw [honeof, slot?, Option.toList_some, slotsText_singleton, Slot.line, if_neg (by simp), hline]
  simp only [← String.append_assoc]
  refine (counts_union t n _).bind ?_
  exact (counts_counted n).bind (Counts.pure _)

/-- A member is written as the line of its attribute, which counts. -/
theorem counts_member (hparent : c.parent.isNone = false) (n : Nat) (x : Member) :
    Counts n (slotsText c.indent (slot? t enums x).toList) (n + (slot? t enums x).toList.length)
      ((walker t enums).member c x) := by
  have htake : ∀ x, isSlot x = true →
      Counts n none n ((walker t enums).hooks.takeMember x c) := by
    intro x hslot
    have hpure : (walker t enums).hooks.takeMember x c = pure none := by
      simp [walker, hooks, dropMembers, hslot]
    rw [hpure]
    exact Counts.pure none
  cases x with
  | field f =>
    have hfield := counts_field t enums n f ((walker t enums).type f.type) c
    have hnone := htake (.field f) rfl
    cases f
    rw [Walker.member]
    exact hnone.bind hfield
  | oneof o =>
    rw [Walker.member]
    exact (htake (.oneof o) rfl).bind (counts_oneof t enums hparent n o)
  | enum e =>
    have hslot : isSlot (.enum e) = false := rfl
    cases e
    rw [Walker.member]
    exact (counts_dropped hslot _ _ c).bind (Counts.pure _)
  | struct s =>
    have hslot : isSlot (.struct s) = false := rfl
    cases s
    rw [Walker.member]
    exact (counts_dropped hslot _ _ c).bind (Counts.pure _)

theorem counts_members (hparent : c.parent.isNone = false) (n : Nat) (xs : List Member) :
    Counts n (slotsText c.indent (xs.filterMap (slot? t enums)))
      (n + (xs.filterMap (slot? t enums)).length) ((walker t enums).members c xs) := by
  induction xs generalizing n with
  | nil =>
    rw [Walker.members]
    exact Counts.pure _
  | cons x xs ih =>
    have hslots : (x :: xs).filterMap (slot? t enums) =
        (slot? t enums x).toList ++ xs.filterMap (slot? t enums) := by
      cases hx : slot? t enums x <;> simp [hx]
    rw [Walker.members, hslots, slotsText, map_append, String.join_append,
      length_append, ← Nat.add_assoc]
    exact (counts_member t enums hparent n x).bind ((ih _).bind (Counts.pure _))

/-- The walk over a class writes the lines of its attributes in the order of its members. -/
theorem yields_class (hindent : c.nest.indent = "    ") (s : Struct) :
    Yields (classText t enums s) ((walker t enums).struct c s) := by
  refine Counts.yields fun n => ⟨(slots t enums s).length, ?_⟩
  have hmembers := counts_members t enums (c := { c.nest with parent := some s }) rfl 0 s.members
  rw [Nat.zero_add, show Context.indent { c.nest with parent := some s } = "    " from hindent]
    at hmembers
  have hclose : Counts (slots t enums s).length
      (if (slots t enums s).isEmpty then "    pass\n" else "") (slots t enums s).length
      ((walker t enums).hooks.structClose s c) := by
    intro st hst
    refine ⟨?_, hst⟩
    have hempty : ((slots t enums s).isEmpty = true) = (st.count = 0) := by
      rw [hst, isEmpty_iff_length_eq_zero]
    simp only [hempty]
    rfl
  have hopen : Counts n ("\n\n@dataclass\nclass " ++ className t s.name ++ baseText t s.base ++
      ":\n") 0 ((walker t enums).hooks.structOpen s c) := fun _ _ => ⟨rfl, rfl⟩
  rw [struct_eq]
  exact hopen.bind (hmembers.bind (hclose.bind (Counts.pure _)))

/-! ### Classes in files -/

theorem shows_nodes {part : String} {nodes : List Node} (hd : d ∈ nodes)
    (hshows : Shows part ((walker t enums).node c d)) :
    Shows part ((walker t enums).nodes c nodes) := by
  induction hd with
  | head rest =>
    rw [Walker.nodes_cons]
    exact hshows.head
  | tail first _ ih =>
    rw [Walker.nodes_cons]
    exact ih.tail

theorem shows_class (hs : .struct s ∈ m.nodes) :
    Shows (classText t enums s) ((walker t enums).walk m) := by
  have hindent : ((walker t enums).outermost m .normal).nest.indent = "    " := by
    simp [Context.indent, Context.nest, Walker.outermost, walker]
  have hnode : Shows (classText t enums s)
      ((walker t enums).node ((walker t enums).outermost m .normal) (.struct s)) := by
    intro st
    have hclass := yields_class t enums hindent s st
    exact hclass ▸ infix_refl _
  have hpasses : Shows (classText t enums s) ((walker t enums).passesOver m [.normal]) := by
    rw [Walker.passesOver]
    exact (shows_nodes t enums hs hnode).head
  exact Shows.body hpasses

end

/-- Every class stands in the file of its module. -/
theorem class_in_file (t : Target) (hs : .struct s ∈ statements m) :
    ∃ before after, ((python t).write m).1 = String.ofList
      (endLine (before ++ classText t (enumsOf m.nodes) s ++ after).toList) := by
  have hwalk := shows_class t (enumsOf m.nodes) (m := { m with nodes := statements m }) hs
  have hshown : Shows (classText t (enumsOf m.nodes) s) (emission t m) := by
    rw [emission]
    split
    · exact Shows.bind fun _ => hwalk
    · exact hwalk
  obtain ⟨before, after, heq⟩ := hshown {}
  obtain ⟨front, hfront⟩ : ∃ front, ((python t).write m).1 =
      String.ofList (endLine (front ++ (run (emission t m)).1).toList) := ⟨_, rfl⟩
  refine ⟨front ++ String.ofList before, String.ofList after, ?_⟩
  rw [hfront, run]
  simp [String.toList_append, String.toList_ofList, ← heq]

/-! ### Classes that are refused -/

def isOpaqueMember : Member → Bool
  | .field f => isOpaque f.type
  | _ => false

theorem slot_of_flat (enums : List Enum) {ms : List Member} (hwhole : WholeMembers ms)
    (hflat : ms.all isFlatMember = true) {x : Member} (hx : x ∈ ms) :
    ∃ a, slot? builtinTarget enums x = some a ∧ (a.default ≠ "" ↔ isOpaqueMember x = false) := by
  have hmember := all_eq_true.mp hflat x hx
  cases x with
  | field f => exact ⟨_, rfl, default_ne_empty_iff enums (hwhole f hx)⟩
  | oneof o => exact ⟨_, rfl, iff_of_true (by simp) rfl⟩
  | _ => simp [isFlatMember] at hmember

/-- Behind an attribute with a default stand only others that have one, exactly if before a field
of an opaque type stand only others of such types. -/
theorem defaults_trail_iff (enums : List Enum) (hwhole : WholeMembers s.members)
    (hflat : s.members.all isFlatMember = true) :
    (slots builtinTarget enums s).Pairwise (fun a b => a.default ≠ "" → b.default ≠ "") ↔
      s.members.Pairwise (fun x y => isOpaqueMember y = true → isOpaqueMember x = true) := by
  rw [slots, pairwise_filterMap]
  refine Pairwise.iff_of_mem ?_
  intro x y hx hy
  obtain ⟨a, ha, hdefaulta⟩ := slot_of_flat enums hwhole hflat hx
  obtain ⟨b, hb, hdefaultb⟩ := slot_of_flat enums hwhole hflat hy
  rw [ha, hb]
  simp only [Option.some.injEq, forall_eq', hdefaulta, hdefaultb]
  cases isOpaqueMember x <;> cases isOpaqueMember y <;> simp

def packet (ms : List Member) : Struct := { name := "Packet", members := ms }

def packetModule (ms : List Member) : Module := { nodes := [.struct (packet ms)] }

def payload : Member := .field ⟨"payload", .primitive .unknown "std::any", []⟩

def count : Member := .field ⟨"count", .prim .int32, []⟩

theorem slots_packet :
    [[payload, count], [count, payload]].map
        (fun ms => (slots builtinTarget [] (packet ms)).map fun a => (a.type, a.default)) =
      [[("Any", ""), ("int", "0")], [("int", "0"), ("Any", "")]] := by
  decide +kernel

end Writer.Python

open Writer.Python

theorem whole_of_statement (hvalid : m.issues = []) (hs : .struct s ∈ statements (flatten m).1) :
    WholeMembers s.members := by
  refine wholeNodes_flatten hvalid s ((declarations_inOrder _).mem_iff.mp ?_)
  rw [declarations_eq_flatMap, mem_flatMap]
  exact ⟨.struct s, hs, mem_singleton_self _⟩

/-- Each class of a valid schema stands in the file with its attributes in the order of the
members. No attribute without a default follows one that has a default exactly if the fields of
types known only by their text come before all other members. -/
theorem python_defaults_trail_iff (m : Module) (hvalid : m.issues = []) {s : Struct}
    (hs : .struct s ∈ statements (flatten m).1) :
    (∃ before after, ((Writer.python builtinTarget).write (flatten m).1).1 = String.ofList (endLine
      (before ++ classText builtinTarget (enumsOf (flatten m).1.nodes) s ++ after).toList)) ∧
    ((slots builtinTarget (enumsOf (flatten m).1.nodes) s).Pairwise
        (fun a b => a.default ≠ "" → b.default ≠ "") ↔
      s.members.Pairwise (fun x y => isOpaqueMember y = true → isOpaqueMember x = true)) := by
  have hnode := isFlatNode_of_mem_flatNodes (flat_flatten m) ((inOrder_perm _).mem_iff.mp hs)
  rw [isFlatNode] at hnode
  exact ⟨class_in_file builtinTarget hs, defaults_trail_iff _ (whole_of_statement hvalid hs) hnode⟩

/-- A field that has no default, before one that has a default. -/
theorem packet_defaults_trail :
    (packetModule [payload, count]).issues = [] ∧
      (slots builtinTarget (enumsOf (flatten (packetModule [payload, count])).1.nodes)
        (packet [payload, count])).Pairwise (fun a b => a.default ≠ "" → b.default ≠ "") ∧
      (slots builtinTarget [] (packet [payload, count])).map (fun a => (a.type, a.default)) =
        [("Any", ""), ("int", "0")] := by
  have hvalid : (packetModule [payload, count]).issues = [] := by cbv
  have hstatements : statements (flatten (packetModule [payload, count])).1 =
      [.struct (packet [payload, count])] := by cbv
  have hs := hstatements ▸ List.mem_singleton_self (Node.struct (packet [payload, count]))
  exact ⟨hvalid, (python_defaults_trail_iff _ hvalid hs).2.mpr (by decide),
    (List.cons.inj slots_packet).1⟩

/-- With the same fields the other way round the schema is valid and the class is refused. -/
theorem packet_default_missing :
    (packetModule [count, payload]).issues = [] ∧
      (∃ before after,
        ((Writer.python builtinTarget).write (flatten (packetModule [count, payload])).1).1 =
          String.ofList (endLine (before ++
            classText builtinTarget [] (packet [count, payload]) ++ after).toList)) ∧
      (slots builtinTarget [] (packet [count, payload])).map (fun a => (a.type, a.default)) =
        [("int", "0"), ("Any", "")] := by
  have hstatements : statements (flatten (packetModule [count, payload])).1 =
      [.struct (packet [count, payload])] := by cbv
  have hs := hstatements ▸ List.mem_singleton_self (Node.struct (packet [count, payload]))
  have henums : enumsOf (flatten (packetModule [count, payload])).1.nodes = [] := by cbv
  have hfile := class_in_file builtinTarget hs
  rw [henums] at hfile
  exact ⟨by cbv, hfile, (List.cons.inj (List.cons.inj slots_packet).2).1⟩

end Schemata
