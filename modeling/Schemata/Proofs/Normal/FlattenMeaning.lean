import Schemata.Proofs.Normal.Unnesting

/-!
Flattening keeps the meaning of every declaration. `MembersKept` relates the body of
a struct to its flattened body, member by member: a type stays what it was, except
that an inline struct has become a reference, and the name it refers to belongs to
exactly one declaration, a struct whose body is related in turn.

Names are what can go wrong. A reference made by flattening is worth something only
if no other declaration has the same name, so the relation is over all declarations
of the result, and the names there are shown to be distinct first.
-/

namespace Schemata.Normal

open Naming List

/-! ### Names the search for fresh ones does not see

The names in use are collected from declarations and field types, but not from the
types of oneof alternatives and enum payloads. -/

mutual

/-- The names declared below a oneof alternative or an enum payload inside a type. -/
def sumNamesOfType : TypeExpr → List String
  | .missing | .primitive _ _ | .reference _ _ | .emptyInline => []
  | .indirection _ elem => sumNamesOfType elem
  | .generic _ args _ => sumNamesOfTypes args
  | .inline s => sumNamesOfStruct s

def sumNamesOfTypes : List TypeExpr → List String
  | [] => []
  | t :: ts => sumNamesOfType t ++ sumNamesOfTypes ts

def sumNamesOfStruct : Struct → List String
  | ⟨_, _, _, _, _, _, _, _, members⟩ => sumNamesOfMembers members

def sumNamesOfMembers : List Member → List String
  | [] => []
  | .field ⟨_, type, _⟩ :: ms => sumNamesOfType type ++ sumNamesOfMembers ms
  | .oneof ⟨_, _, alts⟩ :: ms => ownNamesOfAlternatives alts ++ sumNamesOfMembers ms
  | .enum ⟨_, _, _, _, _, values⟩ :: ms => ownNamesOfValues values ++ sumNamesOfMembers ms
  | .struct s :: ms => sumNamesOfStruct s ++ sumNamesOfMembers ms

end

mutual

def sumNamesOfNode : Node → List String
  | .struct s => sumNamesOfMembers s.members
  | .enum e => ownNamesOfValues e.values
  | .oneof o => ownNamesOfAlternatives o.alternatives
  | .space _ inner => sumNamesOfNodes inner
  | .service _ => []

/-- The names declared below the oneof alternatives and enum payloads of the nodes. The
list is empty when the inline structs there have no names and nest no declarations. -/
def sumNamesOfNodes : List Node → List String
  | [] => []
  | d :: rest => sumNamesOfNode d ++ sumNamesOfNodes rest

end

mutual

theorem ownNamesOfType_subset : ∀ t : TypeExpr, ownNamesOfType t ⊆ namesOfType t ++ sumNamesOfType t
  | .missing => by simp [ownNamesOfType]
  | .primitive _ _ => by simp [ownNamesOfType]
  | .reference _ _ => by simp [ownNamesOfType]
  | .emptyInline => by simp [ownNamesOfType]
  | .indirection _ elem => by
    rw [ownNamesOfType, namesOfType, sumNamesOfType]
    exact ownNamesOfType_subset elem
  | .generic _ args _ => by
    rw [ownNamesOfType, namesOfType, sumNamesOfType]
    exact ownNamesOfTypes_subset args
  | .inline s => by
    rw [ownNamesOfType, namesOfType, sumNamesOfType]
    exact ownNamesOfStruct_subset s

theorem ownNamesOfTypes_subset : ∀ ts : List TypeExpr,
    ownNamesOfTypes ts ⊆ namesOfTypes ts ++ sumNamesOfTypes ts
  | [] => by simp [ownNamesOfTypes]
  | t :: ts => by
    have ht := ownNamesOfType_subset t
    have hts := ownNamesOfTypes_subset ts
    grind [ownNamesOfTypes, namesOfTypes, sumNamesOfTypes]

theorem ownNamesOfStruct_subset : ∀ s : Struct,
    ownNamesOfStruct s ⊆ namesOfStruct s ++ sumNamesOfStruct s
  | ⟨name, _, _, anonymous, _, _, _, _, members⟩ => by
    have hmembers := ownNamesOfMembers_subset members
    grind [ownNamesOfStruct, namesOfStruct, sumNamesOfStruct, ownName, Struct.isNamed]

theorem ownNamesOfMembers_subset : ∀ ms : List Member,
    ownNamesOfMembers ms ⊆ namesOfMembers ms ++ sumNamesOfMembers ms
  | [] => by simp [ownNamesOfMembers]
  | .field ⟨_, type, _⟩ :: ms => by
    have htype := ownNamesOfType_subset type
    have hms := ownNamesOfMembers_subset ms
    grind [ownNamesOfMembers, namesOfMembers, sumNamesOfMembers]
  | .oneof ⟨_, _, alts⟩ :: ms => by
    have hms := ownNamesOfMembers_subset ms
    grind [ownNamesOfMembers, namesOfMembers, sumNamesOfMembers]
  | .enum ⟨name, _, _, _, _, values⟩ :: ms => by
    have hms := ownNamesOfMembers_subset ms
    grind [ownNamesOfMembers, namesOfMembers, sumNamesOfMembers]
  | .struct s :: ms => by
    have hs := ownNamesOfStruct_subset s
    have hms := ownNamesOfMembers_subset ms
    grind [ownNamesOfMembers, namesOfMembers, sumNamesOfMembers]

end

/-- Every name a module declares is in use, unless it stands below an alternative or a
payload. -/
theorem ownNamesOfNodes_subset (nodes : List Node)
    (hroots : ∀ d ∈ declarations nodes, d.name ≠ "") :
    ownNamesOfNodes nodes ⊆ namesOfNodes nodes ++ sumNamesOfNodes nodes := by
  induction nodes using nodesInduction with
  | nil => simp [ownNamesOfNodes]
  | cons d rest hinner hrest =>
    have hrest := hrest fun e he => hroots e (mem_append_right _ he)
    cases d with
    | struct s =>
      have hname := hroots (.struct s) (by simp [declarations, declarationsOf])
      have hmembers := ownNamesOfMembers_subset s.members
      cases s
      grind [ownNamesOfNodes, ownNamesOfNode, namesOfNodes, namesOfStruct, sumNamesOfNodes,
        sumNamesOfNode, Node.name]
    | space name inner =>
      have hinner := hinner name inner rfl fun e he => hroots e (mem_append_left _ he)
      grind [ownNamesOfNodes, ownNamesOfNode, namesOfNodes, sumNamesOfNodes, sumNamesOfNode]
    | _ =>
      grind [ownNamesOfNodes, ownNamesOfNode, namesOfNodes, sumNamesOfNodes, sumNamesOfNode,
        Node.name]

/-! ### The correspondence -/

mutual

/-- The second type says in a module that declares `all` what the first one said. -/
inductive TypeKept (all : List Node) : TypeExpr → TypeExpr → Prop
  | missing : TypeKept all .missing .missing
  | primitive (k : Kind) (spelling : String) :
      TypeKept all (.primitive k spelling) (.primitive k spelling)
  | reference (name : String) (k : Kind) : TypeKept all (.reference name k) (.reference name k)
  | emptyInline : TypeKept all .emptyInline .emptyInline
  | indirection (k : Kind) {elem elem' : TypeExpr} (helem : TypeKept all elem elem') :
      TypeKept all (.indirection k elem) (.indirection k elem')
  | generic (k : Kind) (len : Int64) {args args' : List TypeExpr}
      (hargs : TypesKept all args args') :
      TypeKept all (.generic k args len) (.generic k args' len)
  | inline {s s' : Struct} (hstruct : StructMoved all s s')
      (hattributes : s'.attributes = s.attributes) : TypeKept all (.inline s) (.ref s'.name)

inductive TypesKept (all : List Node) : List TypeExpr → List TypeExpr → Prop
  | nil : TypesKept all [] []
  | cons {t t' : TypeExpr} {ts ts' : List TypeExpr} (ht : TypeKept all t t')
      (hts : TypesKept all ts ts') : TypesKept all (t :: ts) (t' :: ts')

/-- The struct `s` has become the declaration `s'`, the only one of its name. -/
inductive StructMoved (all : List Node) : Struct → Struct → Prop
  | intro {s s' : Struct} (hsole : Sole all s'.name (.struct s')) (hheader : HeaderKept s s')
      (hbody : MembersKept all s.members s'.members) : StructMoved all s s'

/-- The second list of members says in a module that declares `all` what the first one
said. -/
inductive MembersKept (all : List Node) : List Member → List Member → Prop
  | nil : MembersKept all [] []
  | field (name : String) (attributes : List Attribute) {t t' : TypeExpr} {ms ms' : List Member}
      (ht : TypeKept all t t') (hms : MembersKept all ms ms') :
      MembersKept all (.field ⟨name, t, attributes⟩ :: ms) (.field ⟨name, t', attributes⟩ :: ms')
  | oneof (name : String) (attributes : List Attribute) {alts alts' : List Alternative}
      {ms ms' : List Member} (halts : AlternativesKept all alts alts')
      (hms : MembersKept all ms ms') :
      MembersKept all (.oneof ⟨name, attributes, alts⟩ :: ms)
        (.oneof ⟨name, attributes, alts'⟩ :: ms')
  /-- A nested enum leaves the body. -/
  | enum {e e' : Enum} {ms ms' : List Member} (hsole : Sole all e'.name (.enum e'))
      (hheader : EnumHeaderKept e e') (hvalues : ValuesKept all e.values e'.values)
      (hms : MembersKept all ms ms') : MembersKept all (.enum e :: ms) ms'
  /-- The members of a struct without a name or a slot belong to the parent. -/
  | splice {s : Struct} {given ms ms' : List Member} (hs : s.isNamed = false)
      (hvar : s.varName = "") (hgiven : MembersKept all s.members given)
      (hms : MembersKept all ms ms') : MembersKept all (.struct s :: ms) (given ++ ms')
  /-- A struct in a slot leaves a field there, which takes its attributes. -/
  | slot {s s' : Struct} {ms ms' : List Member} (hvar : s.varName ≠ "")
      (hstruct : StructMoved all s s') (hms : MembersKept all ms ms') :
      MembersKept all (.struct s :: ms)
        (.field ⟨s.varName, .ref s'.name, s.attributes⟩ :: ms')
  /-- A named struct without a slot leaves the body. -/
  | named {s s' : Struct} {ms ms' : List Member} (hs : s.isNamed = true) (hvar : s.varName = "")
      (hstruct : StructMoved all s s') (hattributes : s'.attributes = s.attributes)
      (hms : MembersKept all ms ms') : MembersKept all (.struct s :: ms) ms'

inductive AlternativesKept (all : List Node) : List Alternative → List Alternative → Prop
  | nil : AlternativesKept all [] []
  | cons (name : String) (attributes : List Attribute) {t t' : TypeExpr}
      {alts alts' : List Alternative} (ht : TypeKept all t t')
      (halts : AlternativesKept all alts alts') :
      AlternativesKept all (⟨name, t, attributes⟩ :: alts) (⟨name, t', attributes⟩ :: alts')

inductive ValuesKept (all : List Node) : List EnumValue → List EnumValue → Prop
  | nil : ValuesKept all [] []
  | cons (name : String) (number : Int64) (attributes : List Attribute) {t t' : TypeExpr}
      {values values' : List EnumValue} (ht : TypeKept all t t')
      (hvalues : ValuesKept all values values') :
      ValuesKept all (⟨name, number, attributes, t⟩ :: values)
        (⟨name, number, attributes, t'⟩ :: values')

end

/-- The nodes of a list, in order, against what they become in place. A namespace holds
the declarations moved out of its nodes before the nodes themselves. -/
inductive EachKept (all : List Node) : List Node → List Node → Prop
  | nil : EachKept all [] []
  | struct {s : Struct} {members : List Member} {rest rest' : List Node}
      (hbody : MembersKept all s.members members) (hrest : EachKept all rest rest') :
      EachKept all (.struct s :: rest) (.struct { s with members } :: rest')
  | enum {e : Enum} {values : List EnumValue} {rest rest' : List Node}
      (hvalues : ValuesKept all e.values values) (hrest : EachKept all rest rest') :
      EachKept all (.enum e :: rest) (.enum { e with values } :: rest')
  | oneof {o : Oneof} {alternatives : List Alternative} {rest rest' : List Node}
      (halts : AlternativesKept all o.alternatives alternatives)
      (hrest : EachKept all rest rest') :
      EachKept all (.oneof o :: rest) (.oneof { o with alternatives } :: rest')
  | space (name : String) {inner inner' rest rest' moved : List Node}
      (hinner : EachKept all inner inner') (hrest : EachKept all rest rest') :
      EachKept all (.space name inner :: rest) (.space name (moved ++ inner') :: rest')
  | service (s : Service) {rest rest' : List Node} (hrest : EachKept all rest rest') :
      EachKept all (.service s :: rest) (.service s :: rest')

/-- The meaning of a module is kept by another that has the same nodes, with related
bodies, behind the declarations moved out of them. -/
def MeaningKept (m m' : Module) : Prop :=
  ∃ moved nodes, m'.nodes = moved ++ nodes ∧ EachKept (declarations m'.nodes) m.nodes nodes

/-! ### Flattening establishes it -/

theorem sole_of_nodup {all : List Node} (hnames : (all.map Node.name).Nodup) {d : Node}
    (hmem : d ∈ all) : Sole all d.name d :=
  sole_of_count_le_one hmem (nodup_iff_count_le_one.mp hnames d.name)

variable {all : List Node}

theorem declarations_append_subset {xs ys : List Node} :
    declarations (xs ++ ys) ⊆ all ↔ declarations xs ⊆ all ∧ declarations ys ⊆ all := by
  rw [declarations_append, append_subset]

mutual

theorem TypeUnnested.kept (hnames : (all.map Node.name).Nodup)
    {t t' : TypeExpr} {moved : List Node} : TypeUnnested t t' moved →
      declarations moved ⊆ all → TypeKept all t t'
  | .missing, _ => .missing
  | .primitive k spelling, _ => .primitive k spelling
  | .reference name k, _ => .reference name k
  | .emptyInline, _ => .emptyInline
  | .indirection k helem, hsub => .indirection k (helem.kept hnames hsub)
  | .generic k len hargs, hsub => .generic k len (hargs.kept hnames hsub)
  | .inline hstruct hattributes, hsub => .inline (hstruct.kept hnames hsub) hattributes

theorem TypesUnnested.kept (hnames : (all.map Node.name).Nodup)
    {ts ts' : List TypeExpr} {moved : List Node} : TypesUnnested ts ts' moved →
      declarations moved ⊆ all → TypesKept all ts ts'
  | .nil, _ => .nil
  | .cons ht hts, hsub => by
    obtain ⟨hfirst, hrest⟩ := declarations_append_subset.mp hsub
    exact .cons (ht.kept hnames hfirst) (hts.kept hnames hrest)

theorem StructUnnested.kept (hnames : (all.map Node.name).Nodup) :
    ∀ {s s' : Struct} {moved : List Node}, StructUnnested s s' moved →
      declarations moved ⊆ all → StructMoved all s s'
  | _, s', _, .intro hheader _ _ hbody, hsub => by
    obtain ⟨hinside, hstruct⟩ := declarations_append_subset.mp hsub
    have hsole := sole_of_nodup hnames (hstruct (mem_singleton_self (Node.struct s')))
    exact .intro hsole hheader (hbody.kept hnames hinside)

theorem MembersUnnested.kept (hnames : (all.map Node.name).Nodup)
    {ms ms' : List Member} {moved : List Node} : MembersUnnested ms ms' moved →
      declarations moved ⊆ all → MembersKept all ms ms'
  | .nil, _ => .nil
  | .field name attributes ht hms, hsub => by
    obtain ⟨hfirst, hrest⟩ := declarations_append_subset.mp hsub
    exact .field name attributes (ht.kept hnames hfirst) (hms.kept hnames hrest)
  | .oneof name attributes halts hms, hsub => by
    obtain ⟨hfirst, hrest⟩ := declarations_append_subset.mp hsub
    exact .oneof name attributes (halts.kept hnames hfirst) (hms.kept hnames hrest)
  | .enum hheader hvalues hms, hsub => by
    obtain ⟨hfirst, hrest⟩ := declarations_append_subset.mp hsub
    obtain ⟨henum, hrest⟩ := cons_subset.mp hrest
    have hsole := sole_of_nodup hnames henum
    exact .enum hsole hheader (hvalues.kept hnames hfirst) (hms.kept hnames hrest)
  | .splice hs hvar hgiven hms, hsub => by
    obtain ⟨hfirst, hrest⟩ := declarations_append_subset.mp hsub
    exact .splice hs hvar (hgiven.kept hnames hfirst) (hms.kept hnames hrest)
  | .slot hvar hstruct _ hms, hsub => by
    obtain ⟨hfirst, hrest⟩ := declarations_append_subset.mp hsub
    exact .slot hvar (hstruct.kept hnames hfirst) (hms.kept hnames hrest)
  | .named hs hvar hstruct hattributes hms, hsub => by
    obtain ⟨hfirst, hrest⟩ := declarations_append_subset.mp hsub
    exact .named hs hvar (hstruct.kept hnames hfirst) hattributes (hms.kept hnames hrest)

theorem AlternativesUnnested.kept (hnames : (all.map Node.name).Nodup)
    {alts alts' : List Alternative} {moved : List Node} : AlternativesUnnested alts alts' moved →
      declarations moved ⊆ all → AlternativesKept all alts alts'
  | .nil, _ => .nil
  | .cons name attributes ht halts, hsub => by
    obtain ⟨hfirst, hrest⟩ := declarations_append_subset.mp hsub
    exact .cons name attributes (ht.kept hnames hfirst) (halts.kept hnames hrest)

theorem ValuesUnnested.kept (hnames : (all.map Node.name).Nodup)
    {values values' : List EnumValue} {moved : List Node} : ValuesUnnested values values' moved →
      declarations moved ⊆ all → ValuesKept all values values'
  | .nil, _ => .nil
  | .cons name number attributes ht hvalues, hsub => by
    obtain ⟨hfirst, hrest⟩ := declarations_append_subset.mp hsub
    exact .cons name number attributes (ht.kept hnames hfirst) (hvalues.kept hnames hrest)

end

section

variable (hnames : (all.map Node.name).Nodup)

include hnames

theorem NodesUnnested.kept {nodes stays moved : List Node} (h : NodesUnnested nodes stays moved)
    (hsub : declarations (moved ++ stays) ⊆ all) : EachKept all nodes stays := by
  induction h with
  | nil => exact .nil
  | struct hbody _ ih =>
    simp only [declarations, declarations_append, append_subset] at hsub ih
    exact .struct (hbody.kept hnames hsub.1.1) (ih ⟨hsub.1.2, hsub.2.2⟩)
  | enum hvalues _ ih =>
    simp only [declarations, declarations_append, append_subset] at hsub ih
    exact .enum (hvalues.kept hnames hsub.1.1) (ih ⟨hsub.1.2, hsub.2.2⟩)
  | oneof halts _ ih =>
    simp only [declarations, declarations_append, append_subset] at hsub ih
    exact .oneof (halts.kept hnames hsub.1.1) (ih ⟨hsub.1.2, hsub.2.2⟩)
  | space name _ _ ihinner ih =>
    -- a namespace holds its own front, so both halves of it are among the declarations
    simp only [declarations, declarationsOf, declarations_append, append_subset]
      at hsub ihinner ih
    exact .space name (ihinner hsub.2.1) (ih ⟨hsub.1, hsub.2.2⟩)
  | service s _ ih =>
    simp only [declarations, declarations_append, append_subset] at hsub ih
    exact .service s (ih ⟨hsub.1, hsub.2.2⟩)

theorem flattenEach_kept (nodes : List Node) (h : Hoisting)
    (hfront : (flattenEach nodes h).2.hoisted ⊆ all)
    (hstay : declarations (flattenEach nodes h).1 ⊆ all) :
    EachKept all nodes (flattenEach nodes h).1 := by
  obtain ⟨moved, hrun, hnodes⟩ := flattenEach_unnested nodes h
  obtain ⟨_, hmoves⟩ := hrun.moves
  have hhoisted : (flattenEach nodes h).2.hoisted = h.hoisted ++ moved := hmoves.front
  have hmoved : declarations moved ⊆ all := by
    rw [hmoves.plain]
    exact (append_subset.mp (hhoisted ▸ hfront)).2
  exact hnodes.kept hnames (declarations_append_subset.mpr ⟨hmoved, hstay⟩)

end

/-! ### The whole module -/

/-- The declarations of a flattened module: those moved to its front, then those of its
own nodes. -/
theorem declarations_flatten (m : Module) :
    declarations (flatten m).1.nodes =
      (flattenEach m.nodes { taken := namesOfNodes m.nodes }).2.hoisted ++
        declarations (flattenEach m.nodes { taken := namesOfNodes m.nodes }).1 :=
  declarations_front (flattenEach_moves m.nodes { taken := namesOfNodes m.nodes }) _

/-- Names that are declared once and are all in use stay distinct under flattening. -/
theorem flatten_names_nodup (m : Module) (hown : (ownNamesOfNodes m.nodes).Nodup)
    (hused : ownNamesOfNodes m.nodes ⊆ namesOfNodes m.nodes) :
    ((declarations (flatten m).1.nodes).map Node.name).Nodup := by
  rw [nodup_iff_count_le_one]
  intro n
  have hrun := flattenEach_moves m.nodes { taken := namesOfNodes m.nodes }
  exact count_front_le_one hrun hused (nodup_iff_count_le_one.mp hown n)

/-- Flattening keeps the meaning of every declaration of a module whose nodes have names,
whose declared names are distinct, and which declares no names below oneof alternatives
and enum payloads. -/
theorem flatten_meaningKept (m : Module) (hroots : ∀ d ∈ declarations m.nodes, d.name ≠ "")
    (hown : (ownNamesOfNodes m.nodes).Nodup) (hsums : sumNamesOfNodes m.nodes = []) :
    MeaningKept m (flatten m).1 := by
  have hused : ownNamesOfNodes m.nodes ⊆ namesOfNodes m.nodes := by
    have hsubset := ownNamesOfNodes_subset m.nodes hroots
    rw [hsums, List.append_nil] at hsubset
    exact hsubset
  have hnames := flatten_names_nodup m hown hused
  refine ⟨_, _, rfl, flattenEach_kept hnames m.nodes _ ?_ ?_⟩
  · rw [declarations_flatten]
    exact List.subset_append_left _ _
  · rw [declarations_flatten]
    exact List.subset_append_right _ _

/-- An order inside a namespace: a line in a slot, a total that belongs to the order, notes
as a list of inline structs, an inline struct below a oneof and a nested enum. -/
def nestedOrder : Module where
  nodes := [.space "shop" [.struct { name := "Order", members := [
    .struct { varName := "line", members := [.field ⟨"sku", .prim .string, []⟩] },
    .struct { members := [.field ⟨"total", .prim .int64, []⟩] },
    .field ⟨"notes", .container .list [.inline { members :=
      [.field ⟨"text", .prim .string, []⟩] }], []⟩,
    .oneof ⟨"payment", [], [⟨"card", .inline { members :=
      [.field ⟨"number", .prim .string, []⟩] }, []⟩]⟩,
    .enum { name := "Status", values := [⟨"open", 0, [], .missing⟩] }] }]]

theorem nestedOrder_meaningKept :
    (∀ d ∈ declarations nestedOrder.nodes, d.name ≠ "") ∧
      (ownNamesOfNodes nestedOrder.nodes).Nodup ∧ sumNamesOfNodes nestedOrder.nodes = [] ∧
      MeaningKept nestedOrder (flatten nestedOrder).1 := by
  have hroots : ∀ d ∈ declarations nestedOrder.nodes, d.name ≠ "" := by decide
  have hown : (ownNamesOfNodes nestedOrder.nodes).Nodup := by decide
  have hsums : sumNamesOfNodes nestedOrder.nodes = [] := by decide
  exact ⟨hroots, hown, hsums, flatten_meaningKept nestedOrder hroots hown hsums⟩

end Schemata.Normal
