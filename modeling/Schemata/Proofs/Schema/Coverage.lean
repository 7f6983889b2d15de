import Schemata.Proofs.Normal.Declarations
import Schemata.Proofs.Schema.Shapes
import Schemata.Proofs.Schema.Soundness

/-!
What the check covers. A component is a struct, an enum, a oneof or a type somewhere in a module,
and it holds other components directly below it; a component is reached when it lies on a way
down from a declaration. Visiting the types of a module meets the types that are reached and no
others, and a module has no issues exactly if every component that is reached keeps to the rules
that concern it alone.
-/

namespace Schemata

open Schemata.Normal List

variable {t : TypeExpr} {c : Component} {nodes : List Node}

inductive Component where
  | struct (s : Struct)
  | enum (e : Enum)
  | oneof (o : Oneof)
  | type (t : TypeExpr)

/-- A member as a component; of a field that is its type. -/
def Member.component : Member → Component
  | .field f => .type f.type
  | .oneof o => .oneof o
  | .enum e => .enum e
  | .struct s => .struct s

/-- What a node declares, if types can stand in it. -/
def Node.component? : Node → Option Component
  | .struct s => some (.struct s)
  | .enum e => some (.enum e)
  | .oneof o => some (.oneof o)
  | .space _ _ | .service _ => none

/-- The components directly below one. -/
def Component.below : Component → List Component
  | .struct s => s.members.map Member.component
  | .enum e => e.values.map fun v => .type v.payload
  | .oneof o => o.alternatives.map fun a => .type a.type
  | .type (.inline s) => [.struct s]
  | .type t => t.children.map .type

/-- The components that a list of nodes and the namespaces in it declare. -/
def roots (nodes : List Node) : List Component := (declarations nodes).filterMap Node.component?

/-- The components on the ways down from what is declared. -/
inductive Reached (nodes : List Node) : Component → Prop where
  | root {c : Component} (hc : c ∈ roots nodes) : Reached nodes c
  | inside {c inner : Component} (hc : Reached nodes c) (hinner : inner ∈ c.below) :
      Reached nodes inner

theorem TypeExpr.sizeOf_children {u : TypeExpr} (h : u ∈ t.children) : sizeOf u < sizeOf t := by
  cases t with
  | indirection k elem =>
    have helem : u = elem := by
      cases elem <;> simp [TypeExpr.children] at h <;> exact h
    rw [helem]
    simp
  | generic k args len =>
    have hargs : u ∈ args := h
    have hsize := sizeOf_lt_of_mem hargs
    simp
    omega
  | _ => simp [TypeExpr.children] at h

theorem Member.sizeOf_component (x : Member) : sizeOf x.component ≤ sizeOf x := by
  cases x with
  | field f => cases f; simp [Member.component]; omega
  | _ => simp [Member.component]

theorem Component.sizeOf_below {inner : Component} (h : inner ∈ c.below) :
    sizeOf inner < sizeOf c := by
  cases c with
  | struct s =>
    obtain ⟨x, hx, rfl⟩ := mem_map.mp h
    have hsize := sizeOf_lt_of_mem hx
    have hcomponent := x.sizeOf_component
    cases s
    simp at hsize ⊢
    omega
  | enum e =>
    obtain ⟨v, hv, rfl⟩ := mem_map.mp h
    have hsize := sizeOf_lt_of_mem hv
    cases e
    cases v
    simp at hsize ⊢
    omega
  | oneof o =>
    obtain ⟨a, ha, rfl⟩ := mem_map.mp h
    have hsize := sizeOf_lt_of_mem ha
    cases o
    cases a
    simp at hsize ⊢
    omega
  | type t =>
    cases t with
    | inline s =>
      rw [mem_singleton.mp h]
      simp
    | _ =>
      obtain ⟨u, hu, rfl⟩ := mem_map.mp h
      have hsize := TypeExpr.sizeOf_children hu
      simpa using hsize

/-- Induction from the components below to the component that holds them. -/
theorem Component.induction {motive : Component → Prop}
    (step : ∀ c, (∀ inner ∈ c.below, motive inner) → motive c) (c : Component) : motive c := by
  induction hsize : sizeOf c using Nat.strong_induction_on generalizing c with
  | _ size ih =>
    subst hsize
    exact step c fun inner hinner => ih _ (sizeOf_below hinner) inner rfl

/-! ### Visits -/

/-- The visits to the types of a component. -/
def Component.visits (path : String) : Component → List (String × TypeExpr)
  | .struct s => s.visits path
  | .enum e => visitsOfValues path e.values
  | .oneof o => visitsOfAlternatives path o.alternatives
  | .type t => t.visits path

variable (path : String)

/-- The components directly below one, with the paths they are visited under. -/
def Component.placed : Component → List (String × Component)
  | .struct s => s.members.map fun x => (joinPath path x.name, x.component)
  | .enum e => e.values.map fun v => (joinPath path v.name, .type v.payload)
  | .oneof o => o.alternatives.map fun a => (joinPath path a.name, .type a.type)
  | .type (.inline s) => [(path, .struct s)]
  | .type t => t.children.map fun u => (path, .type u)

/-- The visit to a component itself: only a type that is given has one. -/
def Component.own : Component → List (String × TypeExpr)
  | .type t => if t.isMissing then [] else [(path, t)]
  | _ => []

open Component

theorem Component.mem_own {path place : String} :
    (place, t) ∈ c.own path ↔ c = .type t ∧ t ≠ .missing ∧ place = path := by
  cases c with
  | type u =>
    cases u <;> simp [own, TypeExpr.isMissing] <;> grind
  | _ => simp [own]

theorem Component.map_snd_placed (c : Component) (path : String) :
    (c.placed path).map Prod.snd = c.below := by
  cases c with
  | type t => cases t <;> simp [placed, below, Function.comp_def]
  | _ => simp [placed, below, Function.comp_def]

theorem visitsOfTypes_eq (ts : List TypeExpr) :
    visitsOfTypes path ts = ts.flatMap (TypeExpr.visits path) := by
  induction ts with
  | nil => rw [visitsOfTypes, flatMap_nil]
  | cons t ts ih => rw [visitsOfTypes, ih, flatMap_cons]

theorem Member.visits_eq (x : Member) (path : String) :
    x.visits path = x.component.visits (joinPath path x.name) := by
  cases x with
  | field f => cases f; rw [Member.visits]; rfl
  | oneof o => cases o; rw [Member.visits]; rfl
  | enum e => cases e; rw [Member.visits]; rfl
  | struct s => cases s; rw [Member.visits, Member.component, Component.visits, Struct.visits]; rfl

theorem visitsOfMembers_eq (ms : List Member) :
    visitsOfMembers path ms = ms.flatMap fun x => x.component.visits (joinPath path x.name) := by
  induction ms with
  | nil => rw [visitsOfMembers, flatMap_nil]
  | cons x ms ih => rw [visitsOfMembers, ih, flatMap_cons, x.visits_eq]

theorem visitsOfAlternatives_eq (alts : List Alternative) :
    visitsOfAlternatives path alts =
      alts.flatMap fun a => a.type.visits (joinPath path a.name) := by
  induction alts with
  | nil => rw [visitsOfAlternatives, flatMap_nil]
  | cons a alts ih => cases a; rw [visitsOfAlternatives, ih, flatMap_cons]

theorem visitsOfValues_eq (values : List EnumValue) :
    visitsOfValues path values =
      values.flatMap fun v => v.payload.visits (joinPath path v.name) := by
  induction values with
  | nil => rw [visitsOfValues, flatMap_nil]
  | cons v values ih => cases v; rw [visitsOfValues, ih, flatMap_cons]

/-- A component is visited itself, then what lies below it. -/
theorem Component.visits_eq (c : Component) (path : String) :
    c.visits path =
      c.own path ++ (c.placed path).flatMap fun (place, inner) => inner.visits place := by
  cases c with
  | struct s =>
    cases s
    simp [visits, own, placed, Struct.visits, visitsOfMembers_eq, flatMap_map]
  | enum e =>
    simp [visits, own, placed, visitsOfValues_eq, flatMap_map]
  | oneof o =>
    simp [visits, own, placed, visitsOfAlternatives_eq, flatMap_map]
  | type t =>
    cases t with
    | indirection k elem =>
      cases elem <;> simp [TypeExpr.visits, own, placed, TypeExpr.children,
        visits, TypeExpr.isMissing]
    | generic k args len =>
      simp [TypeExpr.visits, own, placed, TypeExpr.children,
        visits, TypeExpr.isMissing, visitsOfTypes_eq, flatMap_map]
    | _ =>
      simp [TypeExpr.visits, own, placed, TypeExpr.children, visits, TypeExpr.isMissing]

theorem Component.visits_below {inner : Component} (h : inner ∈ c.below) (path : String) :
    ∃ place, inner.visits place ⊆ c.visits path := by
  rw [← c.map_snd_placed path] at h
  obtain ⟨⟨place, inner⟩, hplaced, rfl⟩ := mem_map.mp h
  refine ⟨place, fun visit hvisit => ?_⟩
  rw [c.visits_eq path]
  exact mem_append_right _ (mem_flatMap.mpr ⟨_, hplaced, hvisit⟩)

/-- The components that are declared, with the paths they are visited under. -/
def rooted (path : String) : List Node → List (String × Component)
  | [] => []
  | .struct s :: rest => (joinPath path s.name, .struct s) :: rooted path rest
  | .enum e :: rest => (joinPath path e.name, .enum e) :: rooted path rest
  | .oneof o :: rest => (joinPath path o.name, .oneof o) :: rooted path rest
  | .space name inner :: rest => rooted (joinPath path name) inner ++ rooted path rest
  | .service _ :: rest => rooted path rest

theorem map_snd_rooted (nodes : List Node) (path : String) :
    (rooted path nodes).map Prod.snd = roots nodes := by
  induction nodes using nodesInduction generalizing path with
  | nil => simp [rooted, roots, declarations]
  | cons d rest hinner hrest =>
    cases d with
    | space name inner =>
      simp [rooted, roots, declarations, declarationsOf, hrest, hinner name inner rfl]
    | _ =>
      simp [rooted, roots, declarations, declarationsOf, hrest, filterMap_cons, Node.component?]

theorem visitsOfNodes_eq (nodes : List Node) (path : String) :
    visitsOfNodes path nodes = (rooted path nodes).flatMap fun (place, c) => c.visits place := by
  induction nodes using nodesInduction generalizing path with
  | nil => simp [rooted, visitsOfNodes]
  | cons d rest hinner hrest =>
    cases d with
    | space name inner => simp [rooted, visitsOfNodes, hrest, hinner name inner rfl]
    | _ => simp [rooted, visitsOfNodes, hrest, visits]

/-- Where a component is reached, visits go through all of it. -/
theorem Reached.visits (h : Reached nodes c) :
    ∃ place, c.visits place ⊆ visitsOfNodes "" nodes := by
  induction h with
  | root hc =>
    rw [← map_snd_rooted nodes ""] at hc
    obtain ⟨⟨place, c⟩, hrooted, rfl⟩ := mem_map.mp hc
    refine ⟨place, fun visit hvisit => ?_⟩
    rw [visitsOfNodes_eq]
    exact mem_flatMap.mpr ⟨_, hrooted, hvisit⟩
  | inside hc hinner ih =>
    obtain ⟨path, hpath⟩ := ih
    obtain ⟨place, hplace⟩ := visits_below hinner path
    exact ⟨place, fun visit hvisit => hpath (hplace hvisit)⟩

/-- What is visited inside of a component that is reached is reached. -/
theorem Reached.of_visit (hc : Reached nodes c) {path place : String}
    (hvisit : (place, t) ∈ c.visits path) : t ≠ .missing ∧ Reached nodes (.type t) := by
  induction c using induction generalizing path with
  | step c ih =>
    rw [c.visits_eq path] at hvisit
    rcases mem_append.mp hvisit with hown | hbelow
    · obtain ⟨rfl, hgiven, -⟩ := mem_own.mp hown
      exact ⟨hgiven, hc⟩
    · obtain ⟨⟨deeper, inner⟩, hplaced, hvisit⟩ := mem_flatMap.mp hbelow
      have hinner : inner ∈ c.below := by
        rw [← c.map_snd_placed path]
        exact mem_map_of_mem hplaced
      exact ih inner hinner (.inside hc hinner) hvisit

/-- Types are visited exactly if they are given and reached. -/
theorem visited_iff :
    (∃ path, (path, t) ∈ visitsOfNodes "" nodes) ↔ t ≠ .missing ∧ Reached nodes (.type t) := by
  constructor
  · rintro ⟨path, hvisit⟩
    rw [visitsOfNodes_eq] at hvisit
    obtain ⟨⟨place, c⟩, hrooted, hvisit⟩ := mem_flatMap.mp hvisit
    have hroot : c ∈ roots nodes := by
      rw [← map_snd_rooted nodes ""]
      exact mem_map_of_mem hrooted
    exact (Reached.root hroot).of_visit hvisit
  · rintro ⟨hgiven, hreached⟩
    obtain ⟨place, hvisits⟩ := hreached.visits
    refine ⟨place, hvisits ?_⟩
    rw [visits_eq]
    exact mem_append_left _ (mem_own.mpr ⟨rfl, hgiven, rfl⟩)

/-! ### Rules -/

/-- The rules for a type, apart from those for the types in it: its kind agrees with its shape and
what it needs is there. -/
def TypeExpr.IsFormed : TypeExpr → Prop
  | .missing | .emptyInline => False
  | .primitive k _ => k = .unknown ∨ k.isPrimitive = true
  | .reference name _ => name ≠ ""
  | .indirection k elem => k.isIndirection = true ∧ elem ≠ .missing
  | .generic k args _ =>
    k.isContainer = true ∧ 0 < args.length ∧ (∀ n, k.arity? = some n → args.length = n) ∧
      .missing ∉ args
  | .inline _ => True

/-- The rules for a component, apart from those for the components in it. Where a type may be left
out, so may its rules. -/
def Component.IsFormed : Component → Prop
  | .struct s => s.IsTitled ∧ (slotNames s.members).Nodup ∧ ∀ f ∈ s.fields, f.type ≠ .missing
  | .enum e => (valueNames e.values).Nodup
  | .oneof o => o.alternatives ≠ []
  | .type t => t = .missing ∨ t.IsFormed

def Component.IsSound : Component → Prop
  | .struct s => SoundStruct s
  | .enum e => (valueNames e.values).Nodup ∧ SoundValues e.values
  | .oneof o => o.alternatives ≠ [] ∧ SoundAlternatives o.alternatives
  | .type t => t = .missing ∨ SoundType t

theorem soundType_iff_given (t : TypeExpr) :
    SoundType t ↔ t ≠ .missing ∧ (t = .missing ∨ SoundType t) := by
  cases t <;> simp [SoundType]

/-- A member is sound as a component, and if it is a field it has a type. -/
theorem soundMember_iff (x : Member) :
    SoundMember x ↔ (∀ f, x = .field f → f.type ≠ .missing) ∧ x.component.IsSound := by
  cases x with
  | field f =>
    cases f
    rw [SoundMember, soundType_iff_given]
    simp [Member.component, IsSound]
  | struct s => simp [SoundMember, Member.component, IsSound]
  | _ => simp [Member.component, IsSound]

theorem soundMembers_iff (ms : List Member) : SoundMembers ms ↔ ∀ x ∈ ms, SoundMember x := by
  induction ms with
  | nil => simp [SoundMembers]
  | cons x ms ih => rw [SoundMembers, ih, forall_mem_cons]

theorem soundValues_iff (values : List EnumValue) :
    SoundValues values ↔ ∀ v ∈ values, v.payload = .missing ∨ SoundType v.payload := by
  induction values with
  | nil => simp [SoundValues]
  | cons v values ih =>
    cases v
    rw [SoundValues, ih, forall_mem_cons]

theorem Struct.mem_fields {s : Struct} {f : Field} : f ∈ s.fields ↔ .field f ∈ s.members := by
  rw [Struct.fields, mem_filterMap]
  constructor
  · rintro ⟨x, hx, hf⟩
    cases x <;> simp at hf
    exact hf ▸ hx
  · intro hf
    exact ⟨_, hf, rfl⟩

/-- A component is sound if it keeps to its own rules and what lies below it is sound. -/
theorem Component.isSound_iff (c : Component) :
    c.IsSound ↔ c.IsFormed ∧ ∀ inner ∈ c.below, inner.IsSound := by
  cases c with
  | struct s =>
    rw [IsSound, IsFormed, below, soundStruct_iff, soundMembers_iff, forall_mem_map]
    constructor
    · rintro ⟨htitled, hslots, hmembers⟩
      refine ⟨⟨htitled, hslots, fun f hf => ?_⟩,
        fun x hx => ((soundMember_iff x).mp (hmembers x hx)).2⟩
      exact ((soundMember_iff _).mp (hmembers _ (Struct.mem_fields.mp hf))).1 f rfl
    · rintro ⟨⟨htitled, hslots, hfields⟩, hbelow⟩
      refine ⟨htitled, hslots, fun x hx => (soundMember_iff x).mpr ⟨?_, hbelow x hx⟩⟩
      rintro f rfl
      exact hfields f (Struct.mem_fields.mpr hx)
  | enum e =>
    simp only [IsSound, IsFormed, below, soundValues_iff, forall_mem_map]
  | oneof o =>
    simp only [IsSound, IsFormed, below, soundAlternatives_iff, forall_mem_map]
  | type t =>
    cases t with
    | indirection k elem =>
      cases elem <;>
        simp [IsSound, IsFormed, TypeExpr.IsFormed, below, TypeExpr.children, SoundType]
    | generic k args len =>
      -- below a component a type may be missing, among arguments it may not
      have hargs : SoundTypes args ↔
          .missing ∉ args ∧ ∀ t ∈ args, t = .missing ∨ SoundType t := by
        rw [soundTypes_iff]
        constructor
        · intro hsound
          exact ⟨fun hmissing => by simpa [SoundType] using hsound _ hmissing,
            fun t ht => .inr (hsound t ht)⟩
        · rintro ⟨hgiven, hsound⟩ t ht
          exact (hsound t ht).resolve_left fun hmissing => hgiven (hmissing ▸ ht)
      simp [IsSound, IsFormed, TypeExpr.IsFormed, below,
        TypeExpr.children, SoundType, hargs, arityProblems_eq_nil_iff, and_assoc]
    | _ =>
      simp [IsSound, IsFormed, TypeExpr.IsFormed, below, TypeExpr.children, SoundType]

theorem soundNodes_iff_roots (nodes : List Node) :
    SoundNodes nodes ↔ ∀ c ∈ roots nodes, c.IsSound := by
  induction nodes using nodesInduction with
  | nil => simp [SoundNodes, roots, declarations]
  | cons d rest hinner hrest =>
    cases d with
    | space name inner =>
      rw [SoundNodes, SoundNode, hrest, hinner name inner rfl]
      simp [roots, declarations, declarationsOf, or_imp, forall_and]
    | _ =>
      rw [SoundNodes, SoundNode, hrest]
      simp [roots, declarations, declarationsOf, filterMap_cons, Node.component?, IsSound]

/-- A module has no issues exactly if every component that is reached keeps to its rules. -/
theorem issues_eq_nil_iff_reached (m : Module) :
    m.issues = [] ↔ ∀ c, Reached m.nodes c → c.IsFormed := by
  rw [issues_eq_nil_iff, soundNodes_iff_roots]
  constructor
  · intro hroots c hc
    have hsound : c.IsSound := by
      induction hc with
      | root hc => exact hroots _ hc
      | inside hc hinner ih => exact ((isSound_iff _).mp ih).2 _ hinner
    exact ((isSound_iff c).mp hsound).1
  · intro hformed c hc
    -- soundness comes from below, so the induction is not on how a component is reached
    have hsound : ∀ c : Component, Reached m.nodes c → c.IsSound := by
      intro c
      induction c using induction with
      | step c ih =>
        intro hc
        exact (isSound_iff c).mpr
          ⟨hformed c hc, fun inner hinner => ih inner hinner (.inside hc hinner)⟩
    exact hsound c (.root hc)

/-- In a module without issues every type that visits meet keeps to its rules, and in every struct
that is reached each field has a type and no slot is taken twice. -/
theorem valid_covers_visits (m : Module) (h : m.issues = []) :
    (∀ path t, (path, t) ∈ visitsOfNodes "" m.nodes → t.IsFormed) ∧
      ∀ s, Reached m.nodes (.struct s) →
        (∀ f ∈ s.fields, f.type ≠ .missing) ∧ (slotNames s.members).Nodup := by
  have hformed := (issues_eq_nil_iff_reached m).mp h
  refine ⟨fun path t hvisit => ?_, fun s hs => ?_⟩
  · obtain ⟨hgiven, hreached⟩ := visited_iff.mp ⟨path, hvisit⟩
    exact (hformed _ hreached).resolve_left hgiven
  · obtain ⟨-, hslots, hfields⟩ := hformed _ hs
    exact ⟨hfields, hslots⟩

/-- A stop of a tour, written in place behind a pointer inside of a list. -/
def tourStop : Struct where
  isAnonymous := true
  members := [
    .field ⟨"city", .prim .string, []⟩,
    .oneof ⟨"stay", [], [⟨"hotel", .ref "Hotel", []⟩, ⟨"none", .missing, []⟩]⟩]

/-- A tour in a namespace, whose stops are inline structs. -/
def tours : Module where
  nodes := [.space "travel" [
    .struct {
      name := "Tour"
      members := [
        .field ⟨"stops", .container .list [.indirection .uniquePtr (.inline tourStop)], []⟩,
        .enum {
          name := "Pace"
          values := [⟨"slow", 0, [], .missing⟩, ⟨"custom", 1, [], .prim .float32⟩] }] }]]

theorem tours_covered :
    tours.issues = [] ∧
      ("travel.Tour.stops", TypeExpr.inline tourStop) ∈ visitsOfNodes "" tours.nodes ∧
      (TypeExpr.inline tourStop).IsFormed ∧
      Reached tours.nodes (.struct tourStop) ∧
      (∀ f ∈ tourStop.fields, f.type ≠ .missing) ∧ (slotNames tourStop.members).Nodup := by
  have hvalid : tours.issues = [] := by cbv
  have hvisit : ("travel.Tour.stops", TypeExpr.inline tourStop) ∈ visitsOfNodes "" tours.nodes := by
    simp [tours, visitsOfNodes, Struct.visits, visitsOfMembers, Member.visits, TypeExpr.container,
      TypeExpr.visits, visitsOfTypes, joinPath]
  have hreached : Reached tours.nodes (.struct tourStop) :=
    .inside (visited_iff.mp ⟨_, hvisit⟩).2 List.mem_cons_self
  obtain ⟨hvisits, hstructs⟩ := valid_covers_visits tours hvalid
  exact ⟨hvalid, hvisit, hvisits _ _ hvisit, hreached, hstructs _ hreached⟩

end Schemata
