import Schemata.Proofs.Normal.Lifting

/-!
Lifting without its state. `NodesRaised nodes stays made` says that of the nodes of a list
`stays` are left in place and the enums `made` came out of them, in the order of discovery.
What names the enums have is left open, except that one is empty only if nothing is left of
the name of its member.
-/

namespace Schemata.Normal

open Naming

/-! ### What the values carry -/

/-- What does not depend on the index is the same with and without it. -/
theorem map_mapIdx_eq {α β γ : Type} {f : Nat → α → β} {g : β → γ} {h : α → γ}
    (hfg : ∀ i a, g (f i a) = h a) (xs : List α) : (xs.mapIdx f).map g = xs.map h := by
  apply List.ext_getElem
  · simp
  · intro i _ _
    simp [hfg]

theorem payloads_variantEntries (ts : List TypeExpr) :
    (variantEntries ts).map EnumValue.payload = ts.map carried := by
  apply map_mapIdx_eq
  intros
  rfl

theorem payloads_alternativeEntries (alts : List Alternative) :
    (alternativeEntries alts).map EnumValue.payload = alts.map (carried ·.type) := by
  apply map_mapIdx_eq
  intros
  rfl

/-! ### The relation -/

/-- The members of a struct with these namespaces, what takes their place and the enums made
for them. -/
inductive MembersRaised : List String → List Member → List Member → List Enum → Prop
  | nil (namespaces : List String) : MembersRaised namespaces [] [] []
  /-- A variant below indirections gives way to a reference below them. -/
  | variant (name : String) (attributes : List Attribute) (layers : List Kind)
      (args : List TypeExpr) (len : Int64) {enum : String} {namespaces : List String}
      {ms ms' : List Member} {made : List Enum} (henum : pascalCase name ≠ "" → enum ≠ "")
      (hms : MembersRaised namespaces ms ms' made) :
      MembersRaised namespaces
        (.field ⟨name, layered layers (.generic .variant args len), attributes⟩ :: ms)
        (.field ⟨name, layered layers (.ref enum), attributes⟩ :: ms')
        (variantEnum enum namespaces args :: made)
  | inline (name : String) (attributes : List Attribute) {s : Struct} {namespaces : List String}
      {members ms ms' : List Member} {inner made : List Enum}
      (hbody : MembersRaised s.namespaces s.members members inner)
      (hms : MembersRaised namespaces ms ms' made) :
      MembersRaised namespaces (.field ⟨name, .inline s, attributes⟩ :: ms)
        (.field ⟨name, .inline { s with members }, attributes⟩ :: ms') (inner ++ made)
  | plain (f : Field) {namespaces : List String} {ms ms' : List Member} {made : List Enum}
      (hvariant : ∀ layers args len, f.type ≠ layered layers (.generic .variant args len))
      (hinline : ∀ s, f.type ≠ .inline s) (hms : MembersRaised namespaces ms ms' made) :
      MembersRaised namespaces (.field f :: ms) (.field f :: ms') made
  | oneof (o : Oneof) {enum : String} {namespaces : List String} {ms ms' : List Member}
      {made : List Enum} (henum : pascalCase o.name ≠ "" → enum ≠ "")
      (hms : MembersRaised namespaces ms ms' made) :
      MembersRaised namespaces (.oneof o :: ms) (.field ⟨o.name, .ref enum, o.attributes⟩ :: ms')
        (oneofEnum enum namespaces o :: made)
  | enum (e : Enum) {namespaces : List String} {ms ms' : List Member} {made : List Enum}
      (hms : MembersRaised namespaces ms ms' made) :
      MembersRaised namespaces (.enum e :: ms) (.enum e :: ms') made
  | struct {s : Struct} {namespaces : List String} {members ms ms' : List Member}
      {inner made : List Enum} (hbody : MembersRaised s.namespaces s.members members inner)
      (hms : MembersRaised namespaces ms ms' made) :
      MembersRaised namespaces (.struct s :: ms) (.struct { s with members } :: ms') (inner ++ made)

/-- The nodes of a list, what is left in place and the enums made. -/
inductive NodesRaised : List Node → List Node → List Enum → Prop
  | nil : NodesRaised [] [] []
  | struct {s : Struct} {members : List Member} {rest stays : List Node} {inner made : List Enum}
      (hbody : MembersRaised s.namespaces s.members members inner)
      (hrest : NodesRaised rest stays made) :
      NodesRaised (.struct s :: rest) (.struct { s with members } :: stays) (inner ++ made)
  | oneof (o : Oneof) {rest stays : List Node} {made : List Enum}
      (hrest : NodesRaised rest stays made) :
      NodesRaised (.oneof o :: rest) (.enum (oneofEnum o.name [] o) :: stays) made
  | enum (e : Enum) {rest stays : List Node} {made : List Enum}
      (hrest : NodesRaised rest stays made) :
      NodesRaised (.enum e :: rest) (.enum e :: stays) made
  /-- A namespace keeps the enums made for its nodes in front of them. -/
  | space (name : String) {inner inside rest stays : List Node} {front made : List Enum}
      (hinner : NodesRaised inner inside front) (hrest : NodesRaised rest stays made) :
      NodesRaised (.space name inner :: rest)
        (.space name (front.map .enum ++ inside) :: stays) made
  | service (s : Service) {rest stays : List Node} {made : List Enum}
      (hrest : NodesRaised rest stays made) :
      NodesRaised (.service s :: rest) (.service s :: stays) made

/-! ### What a step does to the state -/

/-- From `l` to `l'` something that declares `own` was lifted: it became `stays` in place, and
these enums were made for it, in order. -/
structure Lifts (l : Lifting) (own : List String) (stays : List Node) (made : List Enum)
    (l' : Lifting) : Prop where
  moves : ∃ fresh, Moves l.supply own stays (made.map .enum) fresh l'.supply
  unused : ∀ e ∈ made, e.name ∉ l.taken
  reports : l.Reporting → l'.Reporting

namespace Lifts

variable {l l₁ l₂ : Lifting} {own own₁ own₂ : List String} {stays stays₁ stays₂ : List Node}
  {made made₁ made₂ : List Enum}

theorem refl (l : Lifting) : Lifts l [] [] [] l := ⟨⟨[], Moves.refl l.supply⟩, by simp, id⟩

theorem trans (hfirst : Lifts l own₁ stays₁ made₁ l₁) (hsecond : Lifts l₁ own₂ stays₂ made₂ l₂) :
    Lifts l (own₁ ++ own₂) (stays₁ ++ stays₂) (made₁ ++ made₂) l₂ := by
  obtain ⟨fresh₁, hmoves₁⟩ := hfirst.moves
  obtain ⟨fresh₂, hmoves₂⟩ := hsecond.moves
  refine ⟨⟨fresh₂ ++ fresh₁, ?_⟩, List.forall_mem_append.mpr ⟨hfirst.unused, ?_⟩,
    hsecond.reports ∘ hfirst.reports⟩
  · rw [List.map_append]
    exact hmoves₁.trans hmoves₂
  · -- names in use stay in use
    intro e he hused
    have htaken : l₁.taken = fresh₁ ++ l.taken := hmoves₁.taken
    exact hsecond.unused e he (htaken ▸ List.mem_append_right fresh₁ hused)

theorem make {e : Enum} (hmakes : l.Makes e l₁) (hreports : l.Reporting → l₁.Reporting) :
    Lifts l [] [] [e] l₁ :=
  ⟨⟨_, hmakes.moves⟩, List.forall_mem_singleton.mpr hmakes.1, hreports⟩

theorem stay (l : Lifting) (d : Node) (hd : declarationsOf d = [d]) : Lifts l [d.name] [d] [] l :=
  ⟨⟨[], moves_stay l.supply d hd⟩, by simp, id⟩

/-- A namespace keeps the enums made for its nodes. -/
theorem space (name : String) (hinner : Lifts { l with lifted := [] } own stays made l₁) :
    Lifts l own [.space name (l₁.lifted ++ stays)] []
      { l with taken := l₁.taken, diagnostics := l₁.diagnostics } := by
  obtain ⟨_, hmoves⟩ := hinner.moves
  exact ⟨moves_space (a := l.supply) name hmoves, by simp, hinner.reports⟩

end Lifts

/-! ### Lifting establishes the relation -/

theorem liftMembers_field_raised {owner : String} {namespaces : List String} {name : String}
    {t : TypeExpr} {attributes : List Attribute} {ms ms' : List Member} {l l' : Lifting}
    {made : List Enum} (ht : ∀ s, t ≠ .inline s) (hms : MembersRaised namespaces ms ms' made)
    (hrest : Lifts (liftVariant owner namespaces name t l).2 [] [] made l') :
    ∃ all, Lifts l [] [] all l' ∧ MembersRaised namespaces (.field ⟨name, t, attributes⟩ :: ms)
      (.field ⟨name, (liftVariant owner namespaces name t l).1, attributes⟩ :: ms') all := by
  have hreports (hl : l.Reporting) := hl.liftVariant owner namespaces name t
  rcases liftVariant_cases owner namespaces name t l with
    ⟨heq, hnone⟩ | ⟨layers, args, len, enum, rfl, hfst, henum, hmakes⟩
  · rw [heq] at hrest ⊢
    exact ⟨made, hrest, .plain _ hnone ht hms⟩
  · rw [hfst]
    exact ⟨_, (Lifts.make hmakes hreports).trans hrest,
      .variant name attributes layers args len henum hms⟩

mutual

theorem liftMembers_raised (owner : String) (namespaces : List String) :
    ∀ (ms : List Member) (l : Lifting), ∃ made,
      Lifts l [] [] made (liftMembers owner namespaces ms l).2 ∧
        MembersRaised namespaces ms (liftMembers owner namespaces ms l).1 made
  | [], l => ⟨[], .refl l, .nil namespaces⟩
  | .field ⟨name, t, attributes⟩ :: ms, l => by
    rw [liftMembers_field]
    -- inside the type first, then the variant on top of it, then the other members
    obtain ⟨made, hrest, hms⟩ := liftMembers_raised owner namespaces ms
      (liftVariant owner namespaces name (liftInline t l).1 (liftInline t l).2).2
    rcases liftInline_raised t l with ⟨s, members, inner, rfl, heq, hfirst, hbody⟩ | hnot
    · dsimp only
      rw [heq, liftVariant_inline] at hrest hms ⊢
      exact ⟨_, hfirst.trans hrest, .inline name attributes hbody hms⟩
    · dsimp only
      rw [liftInline_of_ne_inline hnot] at hrest hms ⊢
      exact liftMembers_field_raised hnot hms hrest
  | .oneof o :: ms, l => by
    obtain ⟨enum, l₁, henum, hmakes, hreports, heq⟩ := liftMembers_oneof owner namespaces o ms l
    obtain ⟨made, hrest, hms⟩ := liftMembers_raised owner namespaces ms l₁
    rw [heq]
    exact ⟨_, (Lifts.make hmakes hreports).trans hrest, .oneof o henum hms⟩
  | .enum e :: ms, l => by
    obtain ⟨made, hrest, hms⟩ := liftMembers_raised owner namespaces ms l
    exact ⟨made, hrest, .enum e hms⟩
  | .struct ⟨own, spaces, _, _, _, _, _, _, members⟩ :: ms, l => by
    obtain ⟨inner, hfirst, hbody⟩ := liftMembers_raised own spaces members l
    obtain ⟨made, hrest, hms⟩ :=
      liftMembers_raised owner namespaces ms (liftMembers own spaces members l).2
    exact ⟨_, hfirst.trans hrest, .struct hbody hms⟩

theorem liftInline_raised : ∀ (t : TypeExpr) (l : Lifting),
    (∃ s members inner, t = .inline s ∧ (liftInline t l).1 = .inline { s with members } ∧
      Lifts l [] [] inner (liftInline t l).2 ∧
        MembersRaised s.namespaces s.members members inner) ∨ ∀ s, t ≠ .inline s
  | .inline ⟨own, spaces, attrs, anonymous, var, record, abstract, sup, members⟩, l => by
    obtain ⟨inner, hrun, hbody⟩ := liftMembers_raised own spaces members l
    exact .inl ⟨⟨own, spaces, attrs, anonymous, var, record, abstract, sup, members⟩, _, inner,
      rfl, rfl, hrun, hbody⟩
  | .missing, _ => .inr fun _ h => by cases h
  | .primitive _ _, _ => .inr fun _ h => by cases h
  | .reference _ _, _ => .inr fun _ h => by cases h
  | .indirection _ _, _ => .inr fun _ h => by cases h
  | .generic _ _ _, _ => .inr fun _ h => by cases h
  | .emptyInline, _ => .inr fun _ h => by cases h

end

/-- The declarations of a list keep their names, beside the enums that are made. -/
theorem liftEach_raised : ∀ (nodes : List Node) (l : Lifting), ∃ made,
    Lifts l (declaredNames nodes) (liftEach nodes l).1 made (liftEach nodes l).2 ∧
      NodesRaised nodes (liftEach nodes l).1 made
  | [], l => by
    rw [liftEach]
    exact ⟨[], .refl l, .nil⟩
  | .struct s :: rest, l => by
    rw [liftEach_struct]
    obtain ⟨inner, hfirst, hbody⟩ := liftMembers_raised s.name s.namespaces s.members l
    obtain ⟨made, hlater, hrest⟩ :=
      liftEach_raised rest (liftMembers s.name s.namespaces s.members l).2
    have hstay := Lifts.stay l
      (.struct { s with members := (liftMembers s.name s.namespaces s.members l).1 }) rfl
    exact ⟨_, (hstay.trans hfirst).trans hlater, .struct hbody hrest⟩
  | .oneof o :: rest, l => by
    obtain ⟨l₁, hsupply, hreports, heq⟩ := liftEach_oneof o rest l
    obtain ⟨made, hlater, hrest⟩ := liftEach_raised rest l₁
    have hmoves := moves_stay l.supply (.enum (oneofEnum o.name [] o)) rfl
    have hstay : Lifts l [o.name] [.enum (oneofEnum o.name [] o)] [] l₁ :=
      ⟨⟨[], hsupply.symm ▸ hmoves⟩, by simp, hreports⟩
    rw [heq]
    exact ⟨made, hstay.trans hlater, .oneof o hrest⟩
  | .enum e :: rest, l => by
    rw [liftEach_enum]
    obtain ⟨made, hlater, hrest⟩ := liftEach_raised rest l
    exact ⟨made, (Lifts.stay l (.enum e) rfl).trans hlater, .enum e hrest⟩
  | .space name inner :: rest, l => by
    rw [liftEach_space]
    let inside := liftEach inner { l with lifted := [] }
    obtain ⟨front, hfirst, hinner⟩ := liftEach_raised inner { l with lifted := [] }
    obtain ⟨made, hlater, hrest⟩ := liftEach_raised rest
      { l with taken := inside.2.taken, diagnostics := inside.2.diagnostics }
    obtain ⟨_, hmoves⟩ := hfirst.moves
    have hfront : inside.2.lifted = front.map .enum := hmoves.front
    have hall := (hfirst.space name).trans hlater
    -- the names of a namespace are those of its nodes, the namespace itself has none
    rw [← declaredNames_append] at hall
    simp only [declaredNames, declarations, declarationsOf, declarations_append] at hall ⊢
    exact ⟨made, hall, hfront ▸ .space name hinner hrest⟩
  | .service s :: rest, l => by
    rw [liftEach_service]
    obtain ⟨made, hlater, hrest⟩ := liftEach_raised rest l
    exact ⟨made, (Lifts.stay l (.service s) rfl).trans hlater, .service s hrest⟩

theorem liftEach_moves (nodes : List Node) (l : Lifting) :
    ∃ moved fresh, Moves l.supply (declaredNames nodes) (liftEach nodes l).1 moved fresh
      (liftEach nodes l).2.supply := by
  obtain ⟨made, hrun, -⟩ := liftEach_raised nodes l
  exact ⟨_, hrun.moves⟩

/-- Lifting reports names it could not use and alternatives without a type. -/
theorem lift_only (m : Module) : (lift m).2.Only liftCodes := by
  obtain ⟨_, hrun, -⟩ := liftEach_raised m.nodes { taken := namesOfNodes m.nodes }
  exact hrun.reports (.empty _)

/-- The nodes of a lifted module: the enums made for its root, then what is left in place. -/
theorem lift_raised (m : Module) :
    ∃ stays made, (lift m).1.nodes = made.map .enum ++ stays ∧ NodesRaised m.nodes stays made := by
  let run := liftEach m.nodes { taken := namesOfNodes m.nodes }
  obtain ⟨made, hrun, hnodes⟩ := liftEach_raised m.nodes { taken := namesOfNodes m.nodes }
  obtain ⟨_, hmoves⟩ := hrun.moves
  have hlifted : run.2.lifted = made.map .enum := hmoves.front
  refine ⟨run.1, made, ?_, hnodes⟩
  rw [← hlifted]
  rfl

end Schemata.Normal
