import Schemata.Proofs.Normal.Hoisting

/-!
Flattening as a relation. `TypeUnnested t t' moved` says that `t` has become `t'` and
that `moved` are the declarations moved out of it, in the order of discovery: what a
declaration holds is moved out before the declaration itself.

The relation leaves open which name a struct gets that has none of its own, and so it
has no state. Whatever does not depend on the names in use is proved from it, by
induction on derivations; that flattening follows it is proved once, here.
-/

namespace Schemata.Normal

open Naming

/-- What a struct keeps besides its body when it is moved out. -/
structure HeaderKept (s s' : Struct) : Prop where
  isRecord : s'.isRecord = s.isRecord
  isAbstract : s'.isAbstract = s.isAbstract
  base : s'.base = s.base
  /-- A namespace path of its own stays; only an empty one is inherited. -/
  namespaces : s.namespaces ≠ [] → s'.namespaces = s.namespaces
  /-- A name of its own stays. -/
  name : s.isNamed = true → s'.name = s.name

/-- What an enum keeps besides its values when it is moved out. -/
structure EnumHeaderKept (e e' : Enum) : Prop where
  name : e'.name = e.name
  attributes : e'.attributes = e.attributes
  isScoped : e'.isScoped = e.isScoped
  underlying : e'.underlying = e.underlying
  namespaces : e.namespaces ≠ [] → e'.namespaces = e.namespaces

mutual

/-- The first type has become the second, and `moved` came out of it. -/
inductive TypeUnnested : TypeExpr → TypeExpr → List Node → Prop
  | missing : TypeUnnested .missing .missing []
  | primitive (k : Kind) (spelling : String) :
      TypeUnnested (.primitive k spelling) (.primitive k spelling) []
  | reference (name : String) (k : Kind) : TypeUnnested (.reference name k) (.reference name k) []
  | emptyInline : TypeUnnested .emptyInline .emptyInline []
  | indirection (k : Kind) {elem elem' : TypeExpr} {moved : List Node}
      (helem : TypeUnnested elem elem' moved) :
      TypeUnnested (.indirection k elem) (.indirection k elem') moved
  | generic (k : Kind) (len : Int64) {args args' : List TypeExpr} {moved : List Node}
      (hargs : TypesUnnested args args' moved) :
      TypeUnnested (.generic k args len) (.generic k args' len) moved
  | inline {s s' : Struct} {moved : List Node} (hstruct : StructUnnested s s' moved)
      (hattributes : s'.attributes = s.attributes) :
      TypeUnnested (.inline s) (.ref s'.name) moved

inductive TypesUnnested : List TypeExpr → List TypeExpr → List Node → Prop
  | nil : TypesUnnested [] [] []
  | cons {t t' : TypeExpr} {ts ts' : List TypeExpr} {moved₁ moved₂ : List Node}
      (ht : TypeUnnested t t' moved₁) (hts : TypesUnnested ts ts' moved₂) :
      TypesUnnested (t :: ts) (t' :: ts') (moved₁ ++ moved₂)

/-- The struct `s` has been moved out as `s'`, the last of `moved`. -/
inductive StructUnnested : Struct → Struct → List Node → Prop
  | intro {s s' : Struct} {moved : List Node} (hheader : HeaderKept s s')
      (hanonymous : s'.isAnonymous = false) (hvar : s'.varName = "")
      (hbody : MembersUnnested s.members s'.members moved) :
      StructUnnested s s' (moved ++ [.struct s'])

/-- The first list of members has become the second, and `moved` came out of it. -/
inductive MembersUnnested : List Member → List Member → List Node → Prop
  | nil : MembersUnnested [] [] []
  | field (name : String) (attributes : List Attribute) {t t' : TypeExpr} {ms ms' : List Member}
      {moved₁ moved₂ : List Node} (ht : TypeUnnested t t' moved₁)
      (hms : MembersUnnested ms ms' moved₂) :
      MembersUnnested (.field ⟨name, t, attributes⟩ :: ms) (.field ⟨name, t', attributes⟩ :: ms')
        (moved₁ ++ moved₂)
  | oneof (name : String) (attributes : List Attribute) {alts alts' : List Alternative}
      {ms ms' : List Member} {moved₁ moved₂ : List Node}
      (halts : AlternativesUnnested alts alts' moved₁) (hms : MembersUnnested ms ms' moved₂) :
      MembersUnnested (.oneof ⟨name, attributes, alts⟩ :: ms)
        (.oneof ⟨name, attributes, alts'⟩ :: ms') (moved₁ ++ moved₂)
  | enum {e e' : Enum} {ms ms' : List Member} {moved₁ moved₂ : List Node}
      (hheader : EnumHeaderKept e e') (hvalues : ValuesUnnested e.values e'.values moved₁)
      (hms : MembersUnnested ms ms' moved₂) :
      MembersUnnested (.enum e :: ms) ms' (moved₁ ++ .enum e' :: moved₂)
  /-- The members of a struct without a name or a slot belong to the parent. -/
  | splice {s : Struct} {given ms ms' : List Member} {moved₁ moved₂ : List Node}
      (hs : s.isNamed = false) (hvar : s.varName = "")
      (hgiven : MembersUnnested s.members given moved₁) (hms : MembersUnnested ms ms' moved₂) :
      MembersUnnested (.struct s :: ms) (given ++ ms') (moved₁ ++ moved₂)
  /-- A struct in a slot leaves a field there, which takes its attributes. -/
  | slot {s s' : Struct} {ms ms' : List Member} {moved₁ moved₂ : List Node}
      (hvar : s.varName ≠ "") (hstruct : StructUnnested s s' moved₁)
      (hattributes : s'.attributes = []) (hms : MembersUnnested ms ms' moved₂) :
      MembersUnnested (.struct s :: ms)
        (.field ⟨s.varName, .ref s'.name, s.attributes⟩ :: ms') (moved₁ ++ moved₂)
  | named {s s' : Struct} {ms ms' : List Member} {moved₁ moved₂ : List Node}
      (hs : s.isNamed = true) (hvar : s.varName = "") (hstruct : StructUnnested s s' moved₁)
      (hattributes : s'.attributes = s.attributes) (hms : MembersUnnested ms ms' moved₂) :
      MembersUnnested (.struct s :: ms) ms' (moved₁ ++ moved₂)

inductive AlternativesUnnested : List Alternative → List Alternative → List Node → Prop
  | nil : AlternativesUnnested [] [] []
  | cons (name : String) (attributes : List Attribute) {t t' : TypeExpr}
      {alts alts' : List Alternative} {moved₁ moved₂ : List Node}
      (ht : TypeUnnested t t' moved₁) (halts : AlternativesUnnested alts alts' moved₂) :
      AlternativesUnnested (⟨name, t, attributes⟩ :: alts) (⟨name, t', attributes⟩ :: alts')
        (moved₁ ++ moved₂)

inductive ValuesUnnested : List EnumValue → List EnumValue → List Node → Prop
  | nil : ValuesUnnested [] [] []
  | cons (name : String) (number : Int64) (attributes : List Attribute) {t t' : TypeExpr}
      {values values' : List EnumValue} {moved₁ moved₂ : List Node}
      (ht : TypeUnnested t t' moved₁) (hvalues : ValuesUnnested values values' moved₂) :
      ValuesUnnested (⟨name, number, attributes, t⟩ :: values)
        (⟨name, number, attributes, t'⟩ :: values') (moved₁ ++ moved₂)

end

/-- The nodes of a list have become `stays` in place, and `moved` came out of them. What
comes out of the nodes of a namespace stays at its front. -/
inductive NodesUnnested : List Node → List Node → List Node → Prop
  | nil : NodesUnnested [] [] []
  | struct {s : Struct} {members : List Member} {rest stays moved₁ moved₂ : List Node}
      (hbody : MembersUnnested s.members members moved₁)
      (hrest : NodesUnnested rest stays moved₂) :
      NodesUnnested (.struct s :: rest) (.struct { s with members } :: stays) (moved₁ ++ moved₂)
  | enum {e : Enum} {values : List EnumValue} {rest stays moved₁ moved₂ : List Node}
      (hvalues : ValuesUnnested e.values values moved₁) (hrest : NodesUnnested rest stays moved₂) :
      NodesUnnested (.enum e :: rest) (.enum { e with values } :: stays) (moved₁ ++ moved₂)
  | oneof {o : Oneof} {alternatives : List Alternative} {rest stays moved₁ moved₂ : List Node}
      (halts : AlternativesUnnested o.alternatives alternatives moved₁)
      (hrest : NodesUnnested rest stays moved₂) :
      NodesUnnested (.oneof o :: rest) (.oneof { o with alternatives } :: stays)
        (moved₁ ++ moved₂)
  | space (name : String) {inner inside front rest stays moved : List Node}
      (hinner : NodesUnnested inner inside front) (hrest : NodesUnnested rest stays moved) :
      NodesUnnested (.space name inner :: rest) (.space name (front ++ inside) :: stays) moved
  | service (s : Service) {rest stays moved : List Node} (hrest : NodesUnnested rest stays moved) :
      NodesUnnested (.service s :: rest) (.service s :: stays) moved

/-! ### What a step does to the state -/

/-- From `h` to `h'` something that declares `own` was flattened: it became `stays` in place, and
`moved` came out of it. -/
structure Flattens (h : Hoisting) (own : List String) (stays moved : List Node) (h' : Hoisting) :
    Prop where
  moves : ∃ fresh, Moves h.supply own stays moved fresh h'.supply
  reports : h.Reporting → h'.Reporting

namespace Flattens

variable {h h₁ h₂ : Hoisting} {own own₁ own₂ : List String}
  {stays stays₁ stays₂ moved moved₁ moved₂ : List Node}

theorem refl (h : Hoisting) : Flattens h [] [] [] h := ⟨⟨[], Moves.refl h.supply⟩, id⟩

theorem trans (hfirst : Flattens h own₁ stays₁ moved₁ h₁)
    (hsecond : Flattens h₁ own₂ stays₂ moved₂ h₂) :
    Flattens h (own₁ ++ own₂) (stays₁ ++ stays₂) (moved₁ ++ moved₂) h₂ := by
  obtain ⟨_, hmoves₁⟩ := hfirst.moves
  obtain ⟨_, hmoves₂⟩ := hsecond.moves
  exact ⟨⟨_, hmoves₁.trans hmoves₂⟩, hsecond.reports ∘ hfirst.reports⟩

/-- A declaration stands behind what it holds, though its name is declared before. -/
theorem perm (hrun : Flattens h own₁ stays moved h₁) (hown : own₁.Perm own₂) :
    Flattens h own₂ stays moved h₁ := by
  obtain ⟨fresh, hmoves⟩ := hrun.moves
  refine ⟨⟨fresh, { hmoves with names := ?_ }⟩, hrun.reports⟩
  intro n
  rw [hmoves.names n, hown.count_eq]

/-- A name that was claimed counts as fresh, since nothing declares it. -/
theorem claimed {name path : String} (hrun : Flattens (h.claim name path).2
    (own ++ [(h.claim name path).1]) stays moved h₁) : Flattens h own stays moved h₁ := by
  obtain ⟨fresh, hmoves⟩ := hrun.moves
  rw [claim_supply] at hmoves
  exact ⟨⟨_, hmoves.claimed (claim_notMem h name path)⟩, fun hh => hrun.reports (hh.claim name path)⟩

theorem stay (h : Hoisting) (namespaces : List String) (d : Node) (hd : declarationsOf d = [d]) :
    Flattens h [d.name] [d] [] { h with namespaces } := ⟨⟨[], moves_stay h.supply d hd⟩, id⟩

/-- A namespace keeps what comes out of its nodes. -/
theorem space (name : String)
    (hinner : Flattens { h with hoisted := [], namespaces := [] } own stays moved h₁) :
    Flattens h own [.space name (h₁.hoisted ++ stays)] []
      { h with taken := h₁.taken, diagnostics := h₁.diagnostics } := by
  obtain ⟨_, hmoves⟩ := hinner.moves
  exact ⟨moves_space (a := h.supply) name hmoves, hinner.reports⟩

end Flattens

theorem inheritSpaces_header (namespaces : List String) (s : Struct) (name : String)
    (attributes : List Attribute) (members : List Member)
    (hname : s.isNamed = true → name = s.name) :
    HeaderKept s (inheritSpaces namespaces (movedStruct s name attributes members)) := by
  unfold inheritSpaces movedStruct
  split
  next hempty =>
    refine ⟨rfl, rfl, rfl, ?_, hname⟩
    intro hne
    exact absurd (List.isEmpty_iff.mp hempty) hne
  next => exact ⟨rfl, rfl, rfl, fun _ => rfl, hname⟩

theorem inheritEnumSpaces_header (namespaces : List String) (e : Enum) (values : List EnumValue) :
    EnumHeaderKept e (inheritEnumSpaces namespaces { e with values }) ∧
      (inheritEnumSpaces namespaces { e with values }).values = values := by
  unfold inheritEnumSpaces
  split
  next hempty =>
    refine ⟨⟨rfl, rfl, rfl, rfl, ?_⟩, rfl⟩
    intro hne
    exact absurd (List.isEmpty_iff.mp hempty) hne
  next => exact ⟨⟨rfl, rfl, rfl, rfl, fun _ => rfl⟩, rfl⟩

theorem inheritSpaces_plain (namespaces : List String) (s : Struct) (name : String)
    (attributes : List Attribute) (members : List Member) :
    (inheritSpaces namespaces (movedStruct s name attributes members)).isAnonymous = false ∧
      (inheritSpaces namespaces (movedStruct s name attributes members)).varName = "" := by
  unfold inheritSpaces movedStruct
  split <;> exact ⟨rfl, rfl⟩

/-! ### Flattening follows the relation -/

/-- A struct is moved out under `name` after what its body holds. -/
theorem hoistStruct_unnested (s : Struct) (name : String) (attributes : List Attribute)
    {h : Hoisting} (hname : s.isNamed = true → name = s.name)
    (hbody : ∃ moved, Flattens h (ownNamesOfMembers s.members) [] moved
        (flattenMembers name false s.members h).2 ∧
      MembersUnnested s.members (flattenMembers name false s.members h).1 moved) :
    ∃ s' moved, Flattens h (ownNamesOfMembers s.members ++ [name]) [] moved
        (hoistStruct s name attributes h) ∧
      StructUnnested s s' moved ∧ s'.name = name ∧ s'.attributes = attributes := by
  obtain ⟨moved, hrun, hbody⟩ := hbody
  let body := flattenMembers name false s.members h
  let s' := inheritSpaces body.2.namespaces (movedStruct s name attributes body.1)
  have hmembers : s'.members = body.1 := inheritSpaces_members _ _
  obtain ⟨hanonymous, hvar⟩ :=
    inheritSpaces_plain body.2.namespaces s name attributes body.1
  have hadd : Flattens body.2 [name] [] [.struct s'] (hoistStruct s name attributes h) :=
    ⟨⟨[], moves_addStruct body.2 (movedStruct s name attributes body.1)⟩, id⟩
  refine ⟨s', moved ++ [.struct s'], hrun.trans hadd, .intro ?_ hanonymous hvar ?_, ?_, ?_⟩
  · exact inheritSpaces_header _ s _ _ _ hname
  · rw [hmembers]
    exact hbody
  · exact inheritSpaces_name _ _
  · exact inheritSpaces_attributes _ _

theorem hoistStruct_named {s : Struct} (hs : s.isNamed = true) (attributes : List Attribute)
    {h : Hoisting} (hbody : ∃ moved, Flattens h (ownNamesOfMembers s.members) [] moved
        (flattenMembers s.name false s.members h).2 ∧
      MembersUnnested s.members (flattenMembers s.name false s.members h).1 moved) :
    ∃ s' moved, Flattens h (ownNamesOfStruct s) [] moved (hoistStruct s s.name attributes h) ∧
      StructUnnested s s' moved ∧ s'.name = s.name ∧ s'.attributes = attributes := by
  obtain ⟨s', moved, hrun, hstruct⟩ := hoistStruct_unnested s s.name attributes (fun _ => rfl) hbody
  refine ⟨s', moved, hrun.perm ?_, hstruct⟩
  rw [ownNamesOfStruct_eq, ownName, if_pos hs]
  exact List.perm_append_comm

theorem hoistStruct_claimed {s : Struct} (hs : s.isNamed = false) (attributes : List Attribute)
    {h : Hoisting} {name path : String}
    (hbody : ∃ moved, Flattens (h.claim name path).2 (ownNamesOfMembers s.members) [] moved
        (flattenMembers (h.claim name path).1 false s.members (h.claim name path).2).2 ∧
      MembersUnnested s.members
        (flattenMembers (h.claim name path).1 false s.members (h.claim name path).2).1 moved) :
    ∃ s' moved, Flattens h (ownNamesOfStruct s) [] moved
        (hoistStruct s (h.claim name path).1 attributes (h.claim name path).2) ∧
      StructUnnested s s' moved ∧ s'.name = (h.claim name path).1 ∧ s'.attributes = attributes := by
  obtain ⟨s', moved, hrun, hstruct⟩ := hoistStruct_unnested s (h.claim name path).1 attributes
    (by simp [hs]) hbody
  refine ⟨s', moved, ?_, hstruct⟩
  rw [ownNamesOfStruct_eq, ownName, hs]
  exact hrun.claimed

mutual

theorem flattenType_unnested (name path : String) : ∀ (t : TypeExpr) (h : Hoisting),
    ∃ moved, Flattens h (ownNamesOfType t) [] moved (flattenType name path t h).2 ∧
      TypeUnnested t (flattenType name path t h).1 moved
  | .missing, h => ⟨[], .refl h, .missing⟩
  | .primitive k spelling, h => ⟨[], .refl h, .primitive k spelling⟩
  | .reference n k, h => ⟨[], .refl h, .reference n k⟩
  | .emptyInline, h =>
    ⟨[], ⟨⟨[], Moves.refl h.supply⟩, fun hh => hh.reportBodiless path⟩, .emptyInline⟩
  | .indirection k elem, h => by
    obtain ⟨moved, hrun, helem⟩ := flattenType_unnested name path elem h
    exact ⟨moved, hrun, .indirection k helem⟩
  | .generic k args len, h => by
    obtain ⟨moved, hrun, hargs⟩ := flattenTypes_unnested name path args h
    exact ⟨moved, hrun, .generic k len hargs⟩
  | .inline ⟨own, spaces, attrs, anonymous, var, record, abstract, base, members⟩, h => by
    let s : Struct := ⟨own, spaces, attrs, anonymous, var, record, abstract, base, members⟩
    change ∃ moved, Flattens h (ownNamesOfStruct s) [] moved
        (flattenType name path (.inline s) h).2 ∧
      TypeUnnested (.inline s) (flattenType name path (.inline s) h).1 moved
    cases hs : s.isNamed with
    | true =>
      rw [flattenType_inline_named hs]
      obtain ⟨s', moved, hrun, hstruct, hname, hattrs⟩ := hoistStruct_named hs s.attributes
        (flattenMembers_unnested own false members h)
      exact ⟨moved, hrun, hname ▸ .inline hstruct hattrs⟩
    | false =>
      rw [flattenType_inline_unnamed hs]
      obtain ⟨s', moved, hrun, hstruct, hname, hattrs⟩ := hoistStruct_claimed hs s.attributes
        (flattenMembers_unnested _ false members _)
      exact ⟨moved, hrun, hname ▸ .inline hstruct hattrs⟩

theorem flattenTypes_unnested (name path : String) : ∀ (ts : List TypeExpr) (h : Hoisting),
    ∃ moved, Flattens h (ownNamesOfTypes ts) [] moved (flattenTypes name path ts h).2 ∧
      TypesUnnested ts (flattenTypes name path ts h).1 moved
  | [], h => ⟨[], .refl h, .nil⟩
  | t :: ts, h => by
    obtain ⟨_, hfirst, ht⟩ := flattenType_unnested name path t h
    obtain ⟨_, hrest, hts⟩ := flattenTypes_unnested name path ts _
    exact ⟨_, hfirst.trans hrest, .cons ht hts⟩

theorem flattenMembers_unnested (owner : String) (root : Bool) :
    ∀ (ms : List Member) (h : Hoisting),
    ∃ moved, Flattens h (ownNamesOfMembers ms) [] moved (flattenMembers owner root ms h).2 ∧
      MembersUnnested ms (flattenMembers owner root ms h).1 moved
  | [], h => ⟨[], .refl h, .nil⟩
  | .field ⟨name, type, attrs⟩ :: ms, h => by
    obtain ⟨_, hfirst, ht⟩ :=
      flattenType_unnested (owner ++ capitalize name) (owner ++ "." ++ name) type h
    obtain ⟨_, hrest, hms⟩ := flattenMembers_unnested owner root ms _
    exact ⟨_, hfirst.trans hrest, .field name attrs ht hms⟩
  | .oneof ⟨name, attrs, alts⟩ :: ms, h => by
    obtain ⟨_, hfirst, halts⟩ := flattenAlternatives_unnested owner alts h
    obtain ⟨_, hrest, hms⟩ := flattenMembers_unnested owner root ms _
    exact ⟨_, hfirst.trans hrest, .oneof name attrs halts hms⟩
  | .enum ⟨name, spaces, attrs, isScoped, underlying, values⟩ :: ms, h => by
    let e : Enum := ⟨name, spaces, attrs, isScoped, underlying, values⟩
    let after := flattenValues name values h
    let e' := inheritEnumSpaces after.2.namespaces { e with values := after.1 }
    obtain ⟨moved, hfirst, hvalues⟩ := flattenValues_unnested name values h
    obtain ⟨hheader, hkept⟩ := inheritEnumSpaces_header after.2.namespaces e after.1
    obtain ⟨_, hrest, hms⟩ := flattenMembers_unnested owner root ms
      (after.2.addEnum { e with values := after.1 })
    have hadd : Flattens after.2 [name] [] [.enum e'] (after.2.addEnum { e with values := after.1 }) :=
      ⟨⟨[], moves_addEnum after.2 { e with values := after.1 }⟩, id⟩
    have hmoved := (hfirst.trans hadd).perm (List.perm_append_singleton name _)
    have hall := hmoved.trans hrest
    rw [List.append_assoc moved] at hall
    rw [flattenMembers]
    exact ⟨_, hall, .enum hheader (by rw [hkept]; exact hvalues) hms⟩
  | .struct ⟨own, spaces, attrs, anonymous, var, record, abstract, base, members⟩ :: ms, h => by
    let s : Struct := ⟨own, spaces, attrs, anonymous, var, record, abstract, base, members⟩
    change ∃ moved, Flattens h (ownNamesOfStruct s ++ ownNamesOfMembers ms) [] moved
        (flattenMembers owner root (.struct s :: ms) h).2 ∧
      MembersUnnested (.struct s :: ms) (flattenMembers owner root (.struct s :: ms) h).1 moved
    cases hs : s.isNamed with
    | false =>
      by_cases hvar : s.varName = ""
      · -- its members belong to the parent and are worked on as the parent's
        rw [flattenMembers_splice hs hvar, ownNamesOfStruct_eq, ownName, hs]
        obtain ⟨_, hfirst, hgiven⟩ := flattenMembers_unnested owner root members h
        obtain ⟨_, hrest, hms⟩ := flattenMembers_unnested owner root ms _
        exact ⟨_, hfirst.trans hrest, .splice hs hvar hgiven hms⟩
      · rw [flattenMembers_slot_unnamed hs hvar]
        obtain ⟨s', _, hfirst, hstruct, hname, hattrs⟩ := hoistStruct_claimed hs []
          (flattenMembers_unnested _ false members _)
        obtain ⟨_, hrest, hms⟩ := flattenMembers_unnested owner root ms _
        have hslot := MembersUnnested.slot hvar hstruct hattrs hms
        rw [hname] at hslot
        exact ⟨_, hfirst.trans hrest, hslot⟩
    | true =>
      have hbody := flattenMembers_unnested own false members h
      by_cases hvar : s.varName = ""
      · rw [flattenMembers_named hs hvar]
        obtain ⟨s', _, hfirst, hstruct, -, hattrs⟩ := hoistStruct_named hs s.attributes hbody
        obtain ⟨_, hrest, hms⟩ := flattenMembers_unnested owner root ms _
        exact ⟨_, hfirst.trans hrest, .named hs hvar hstruct hattrs hms⟩
      · rw [flattenMembers_slot_named hs hvar]
        obtain ⟨s', _, hfirst, hstruct, hname, hattrs⟩ := hoistStruct_named hs [] hbody
        obtain ⟨_, hrest, hms⟩ := flattenMembers_unnested owner root ms _
        have hslot := MembersUnnested.slot hvar hstruct hattrs hms
        rw [hname] at hslot
        exact ⟨_, hfirst.trans hrest, hslot⟩

theorem flattenAlternatives_unnested (owner : String) :
    ∀ (alts : List Alternative) (h : Hoisting),
    ∃ moved, Flattens h (ownNamesOfAlternatives alts) [] moved
        (flattenAlternatives owner alts h).2 ∧
      AlternativesUnnested alts (flattenAlternatives owner alts h).1 moved
  | [], h => ⟨[], .refl h, .nil⟩
  | ⟨name, type, attrs⟩ :: alts, h => by
    obtain ⟨_, hfirst, ht⟩ :=
      flattenType_unnested (owner ++ capitalize name) (owner ++ "." ++ name) type h
    obtain ⟨_, hrest, halts⟩ := flattenAlternatives_unnested owner alts _
    exact ⟨_, hfirst.trans hrest, .cons name attrs ht halts⟩

theorem flattenValues_unnested (owner : String) : ∀ (values : List EnumValue) (h : Hoisting),
    ∃ moved, Flattens h (ownNamesOfValues values) [] moved (flattenValues owner values h).2 ∧
      ValuesUnnested values (flattenValues owner values h).1 moved
  | [], h => ⟨[], .refl h, .nil⟩
  | ⟨name, number, attrs, payload⟩ :: values, h => by
    obtain ⟨_, hfirst, ht⟩ :=
      flattenType_unnested (owner ++ capitalize name) (owner ++ "." ++ name) payload h
    obtain ⟨_, hrest, hvalues⟩ := flattenValues_unnested owner values _
    exact ⟨_, hfirst.trans hrest, .cons name number attrs ht hvalues⟩

end

theorem flattenEach_unnested : ∀ (nodes : List Node) (h : Hoisting),
    ∃ moved, Flattens h (ownNamesOfNodes nodes) (flattenEach nodes h).1 moved
        (flattenEach nodes h).2 ∧ NodesUnnested nodes (flattenEach nodes h).1 moved
  | [], h => by
    rw [flattenEach]
    exact ⟨[], .refl h, .nil⟩
  | .struct s :: rest, h => by
    rw [flattenEach_struct]
    let body := flattenMembers s.name true s.members { h with namespaces := s.namespaces }
    obtain ⟨_, hfirst, hbody⟩ := flattenMembers_unnested s.name true s.members
      { h with namespaces := s.namespaces }
    obtain ⟨_, hlater, hrest⟩ := flattenEach_unnested rest body.2
    have hstay := Flattens.stay h s.namespaces (.struct { s with members := body.1 }) rfl
    exact ⟨_, (hstay.trans hfirst).trans hlater, .struct hbody hrest⟩
  | .enum e :: rest, h => by
    rw [flattenEach_enum]
    let body := flattenValues e.name e.values { h with namespaces := e.namespaces }
    obtain ⟨_, hfirst, hvalues⟩ := flattenValues_unnested e.name e.values
      { h with namespaces := e.namespaces }
    obtain ⟨_, hlater, hrest⟩ := flattenEach_unnested rest body.2
    have hstay := Flattens.stay h e.namespaces (.enum { e with values := body.1 }) rfl
    exact ⟨_, (hstay.trans hfirst).trans hlater, .enum hvalues hrest⟩
  | .oneof o :: rest, h => by
    rw [flattenEach_oneof]
    let body := flattenAlternatives o.name o.alternatives { h with namespaces := [] }
    obtain ⟨_, hfirst, halts⟩ := flattenAlternatives_unnested o.name o.alternatives
      { h with namespaces := [] }
    obtain ⟨_, hlater, hrest⟩ := flattenEach_unnested rest body.2
    have hstay := Flattens.stay h [] (.oneof { o with alternatives := body.1 }) rfl
    exact ⟨_, (hstay.trans hfirst).trans hlater, .oneof halts hrest⟩
  | .space name inner :: rest, h => by
    rw [flattenEach_space]
    let inside := flattenEach inner { h with hoisted := [], namespaces := [] }
    obtain ⟨front, hfirst, hinner⟩ := flattenEach_unnested inner
      { h with hoisted := [], namespaces := [] }
    obtain ⟨_, hlater, hrest⟩ := flattenEach_unnested rest
      { h with taken := inside.2.taken, diagnostics := inside.2.diagnostics }
    -- the namespace starts with nothing moved out, so its front is all that came out
    obtain ⟨_, hmoves⟩ := hfirst.moves
    have hfront : inside.2.hoisted = front := hmoves.front
    have hspace := NodesUnnested.space name hinner hrest
    rw [← hfront] at hspace
    exact ⟨_, (hfirst.space name).trans hlater, hspace⟩
  | .service s :: rest, h => by
    rw [flattenEach_service]
    obtain ⟨_, hlater, hrest⟩ := flattenEach_unnested rest h
    exact ⟨_, (Flattens.stay h h.namespaces (.service s) rfl).trans hlater, .service s hrest⟩

theorem flattenEach_moves (nodes : List Node) (h : Hoisting) :
    ∃ moved fresh, Moves h.supply (ownNamesOfNodes nodes) (flattenEach nodes h).1 moved
      fresh (flattenEach nodes h).2.supply := by
  obtain ⟨moved, hrun, -⟩ := flattenEach_unnested nodes h
  exact ⟨moved, hrun.moves⟩

/-- Flattening reports names it could not use and inline types it had to leave. -/
theorem flatten_only (m : Module) : (flatten m).2.Only flattenCodes := by
  obtain ⟨_, hrun, -⟩ := flattenEach_unnested m.nodes { taken := namesOfNodes m.nodes }
  exact hrun.reports (.empty _)

/-- A flattened module has the nodes of the module behind the declarations moved out of
them. -/
theorem flatten_unnested (m : Module) :
    ∃ stays moved, (flatten m).1 = { m with nodes := moved ++ stays } ∧
      NodesUnnested m.nodes stays moved := by
  let run := flattenEach m.nodes { taken := namesOfNodes m.nodes }
  obtain ⟨moved, hrun, hnodes⟩ := flattenEach_unnested m.nodes { taken := namesOfNodes m.nodes }
  obtain ⟨_, hmoves⟩ := hrun.moves
  have hhoisted : run.2.hoisted = moved := hmoves.front
  refine ⟨run.1, moved, ?_, hnodes⟩
  rw [← hhoisted]
  rfl

end Schemata.Normal
