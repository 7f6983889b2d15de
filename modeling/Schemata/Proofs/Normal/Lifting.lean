import Schemata.Proofs.Normal.PassReports
import Schemata.Proofs.Normal.Supply

/-!
The steps of lifting. For each variant and each oneof of a struct an enum is made, with one value
for each alternative, in order, which carries what the alternative held. Its name is free when it
is given out.
-/

namespace Schemata.Normal

open Naming Lifting

variable {e : Enum}

/-! ### The enums that stand for sum types -/

/-- The data of an alternative that may have none. -/
def carried : TypeExpr → TypeExpr
  | .missing => .prim .monostate
  | t => t

def variantEntries (ts : List TypeExpr) : List EnumValue :=
  ts.mapIdx fun i t => ⟨"Variant" ++ toString i, Int64.ofNat i, [], carried t⟩

def alternativeEntries (alts : List Alternative) : List EnumValue :=
  alts.mapIdx fun i a => ⟨a.name, Int64.ofNat i, a.attributes, carried a.type⟩

variable (l : Lifting)

def Lifting.supply : Supply := ⟨l.taken, l.lifted⟩

variable (path : String)

theorem payload_fst (t : TypeExpr) : (l.payload path t).1 = carried t := by
  cases t <;> rfl

theorem payload_supply (t : TypeExpr) : (l.payload path t).2.supply = l.supply := by
  cases t <;> rfl

theorem variantValues_eq (i : Nat) (ts : List TypeExpr) (l : Lifting) :
    (variantValues path i ts l).1 =
        (ts.zipIdx i).map (fun p => ⟨"Variant" ++ toString p.2, Int64.ofNat p.2, [], carried p.1⟩) ∧
      (variantValues path i ts l).2.supply = l.supply := by
  induction ts generalizing i l with
  | nil => exact ⟨rfl, rfl⟩
  | cons t ts ih =>
    let first := l.payload (path ++ "." ++ ("Variant" ++ toString i)) t
    obtain ⟨hvalues, hsupply⟩ := ih (i + 1) first.2
    refine ⟨?_, hsupply.trans (payload_supply l _ t)⟩
    change ⟨"Variant" ++ toString i, Int64.ofNat i, [], first.1⟩ ::
      (variantValues path (i + 1) ts first.2).1 = _
    rw [hvalues, show first.1 = carried t from payload_fst l _ t]
    rfl

theorem alternativeValues_eq (i : Nat) (alts : List Alternative) (l : Lifting) :
    (alternativeValues path i alts l).1 =
        (alts.zipIdx i).map
          (fun p => ⟨p.1.name, Int64.ofNat p.2, p.1.attributes, carried p.1.type⟩) ∧
      (alternativeValues path i alts l).2.supply = l.supply := by
  induction alts generalizing i l with
  | nil => exact ⟨rfl, rfl⟩
  | cons a alts ih =>
    let first := l.payload (path ++ "." ++ a.name) a.type
    obtain ⟨hvalues, hsupply⟩ := ih (i + 1) first.2
    refine ⟨?_, hsupply.trans (payload_supply l _ a.type)⟩
    change ⟨a.name, Int64.ofNat i, a.attributes, first.1⟩ ::
      (alternativeValues path (i + 1) alts first.2).1 = _
    rw [hvalues, show first.1 = carried a.type from payload_fst l _ a.type]
    rfl

theorem variantValues_zero (ts : List TypeExpr) (l : Lifting) :
    (variantValues path 0 ts l).1 = variantEntries ts := by
  rw [(variantValues_eq path 0 ts l).1, variantEntries, List.mapIdx_eq_zipIdx_map]

/-- The enum made from a oneof, and what making it leaves of the state. -/
theorem ofOneof_eq (o : Oneof) (name : String) (namespaces : List String)
    (path : String) :
    (l.ofOneof o name namespaces path).1 =
        ⟨name, namespaces, o.attributes, true, "", alternativeEntries o.alternatives⟩ ∧
      (l.ofOneof o name namespaces path).2.supply = l.supply := by
  obtain ⟨hvalues, hsupply⟩ := alternativeValues_eq path 0 o.alternatives l
  refine ⟨?_, hsupply⟩
  simp only [ofOneof, hvalues, alternativeEntries, List.mapIdx_eq_zipIdx_map]

/-- A free name is taken for an enum. -/
theorem enumName_spec (owner member path : String) :
    (l.enumName owner member path).1 ∉ l.taken ∧
      (l.enumName owner member path).2.supply =
        ⟨(l.enumName owner member path).1 :: l.taken, l.lifted⟩ := by
  simp only [enumName]
  split
  next =>
    exact ⟨freshName_notMem _ _, rfl⟩
  next hfree =>
    refine ⟨?_, rfl⟩
    simpa using hfree

/-- An enum has an empty name only if nothing is left of its member's name. -/
theorem enumName_ne_empty (owner member path : String) (hmember : pascalCase member ≠ "") :
    (l.enumName owner member path).1 ≠ "" := by
  simp only [enumName]
  split
  next =>
    intro hempty
    exact hmember (String.append_eq_empty_iff.mp (freshName_eq_empty.mp hempty).1).2
  next => exact hmember

/-- An enum under a name that was free is made and collected. -/
theorem moves_made {a : Supply} (hfree : e.name ∉ a.taken) :
    Moves a [] [] [.enum e] [e.name] ⟨e.name :: a.taken, a.front ++ [.enum e]⟩ := by
  have hcollect : Moves ⟨e.name :: a.taken, a.front⟩ ([] ++ [e.name]) [] [.enum e] []
      ⟨e.name :: a.taken, a.front ++ [.enum e]⟩ :=
    moves_collect ⟨e.name :: a.taken, a.front⟩ (d := .enum e) rfl
  exact hcollect.claimed hfree

/-! ### Variants below indirections -/

/-- A type below a row of indirections, the outermost first. -/
def layered (layers : List Kind) (t : TypeExpr) : TypeExpr := layers.foldr .indirection t

theorem variantIn?_eq_some {t : TypeExpr} {args : List TypeExpr} {wrap : TypeExpr → TypeExpr}
    (h : variantIn? t = some (args, wrap)) :
    ∃ layers len, t = layered layers (.generic .variant args len) ∧
      ∀ u, wrap u = layered layers u := by
  fun_induction variantIn? t generalizing args wrap with
  | case1 args' len =>
    cases h
    exact ⟨[], len, rfl, fun _ => rfl⟩
  | case2 k elem ih =>
    obtain ⟨⟨args', inner⟩, helem, hpair⟩ := Option.map_eq_some_iff.mp h
    cases hpair
    obtain ⟨layers, len, htype, hwrap⟩ := ih helem
    refine ⟨k :: layers, len, ?_, ?_⟩
    · rw [htype]
      rfl
    · intro u
      change TypeExpr.indirection k (inner u) = _
      rw [hwrap u]
      rfl
  | case3 => cases h

theorem variantIn?_layered (layers : List Kind) (args : List TypeExpr) (len : Int64) :
    (variantIn? (layered layers (.generic .variant args len))).isSome = true := by
  induction layers with
  | nil => rfl
  | cons k layers ih =>
    change ((variantIn? (layered layers (.generic .variant args len))).map _).isSome = true
    rw [Option.isSome_map]
    exact ih

def variantEnum (name : String) (namespaces : List String) (args : List TypeExpr) : Enum :=
  ⟨name, namespaces, [], true, "", variantEntries args⟩

def oneofEnum (name : String) (namespaces : List String) (o : Oneof) : Enum :=
  ⟨name, namespaces, o.attributes, true, "", alternativeEntries o.alternatives⟩

/-- The state after a free name is taken and the enum of that name is made. -/
def Lifting.Makes (e : Enum) (l' : Lifting) : Prop :=
  e.name ∉ l.taken ∧ l'.supply = ⟨e.name :: l.taken, l.lifted ++ [.enum e]⟩

theorem Lifting.Makes.moves {l l' : Lifting} (h : l.Makes e l') :
    Moves l.supply [] [] [.enum e] [e.name] l'.supply := by
  rw [h.2]
  exact moves_made h.1

/-- An enum is added under a name taken for it, after its values are made. -/
theorem makes_add {l named after : Lifting} (hfree : e.name ∉ l.taken)
    (hnamed : named.supply = ⟨e.name :: l.taken, l.lifted⟩) (hafter : after.supply = named.supply) :
    l.Makes e (after.add e) := by
  refine ⟨hfree, ?_⟩
  have hadd : (after.add e).supply = ⟨after.supply.taken, after.supply.front ++ [.enum e]⟩ := rfl
  rw [hadd, hafter, hnamed]

/-- Lifting a field type leaves it alone when no variant is in reach. -/
theorem liftVariant_cases (owner : String) (namespaces : List String) (name : String)
    (t : TypeExpr) (l : Lifting) :
    (liftVariant owner namespaces name t l = (t, l) ∧
        ∀ layers args len, t ≠ layered layers (.generic .variant args len)) ∨
      ∃ layers args len enum, t = layered layers (.generic .variant args len) ∧
        (liftVariant owner namespaces name t l).1 = layered layers (.ref enum) ∧
        (pascalCase name ≠ "" → enum ≠ "") ∧
        l.Makes (variantEnum enum namespaces args) (liftVariant owner namespaces name t l).2 := by
  cases hvariant : variantIn? t with
  | none =>
    refine .inl ⟨by simp only [liftVariant, hvariant], ?_⟩
    intro layers args len ht
    have hsome := variantIn?_layered layers args len
    rw [← ht, hvariant] at hsome
    exact absurd hsome (by decide)
  | some found =>
    obtain ⟨args, wrap⟩ := found
    obtain ⟨layers, len, ht, hwrap⟩ := variantIn?_eq_some hvariant
    let path := owner ++ "." ++ name
    let named := l.enumName owner name path
    obtain ⟨hfree, hsupply⟩ := enumName_spec l owner name path
    have hvalues := variantValues_zero path args named.2
    have hafter := (variantValues_eq path 0 args named.2).2
    refine .inr ⟨layers, args, len, named.1, ht, ?_, enumName_ne_empty l owner name path, ?_⟩
    · simp only [liftVariant, hvariant, hwrap]
      rfl
    · simp only [liftVariant, hvariant]
      change l.Makes _ ((variantValues path 0 args named.2).2.add
        ⟨named.1, namespaces, [], true, "", (variantValues path 0 args named.2).1⟩)
      rw [hvalues]
      exact makes_add hfree hsupply hafter

/-! ### The steps of lifting -/

/-- A oneof becomes a field that refers to the enum made for it. -/
theorem liftMembers_oneof (owner : String) (namespaces : List String) (o : Oneof)
    (ms : List Member) (l : Lifting) :
    ∃ enum l₁, (pascalCase o.name ≠ "" → enum ≠ "") ∧ l.Makes (oneofEnum enum namespaces o) l₁ ∧
      (l.Reporting → l₁.Reporting) ∧ liftMembers owner namespaces (.oneof o :: ms) l =
        (.field ⟨o.name, .ref enum, o.attributes⟩ :: (liftMembers owner namespaces ms l₁).1,
          (liftMembers owner namespaces ms l₁).2) := by
  let path := owner ++ "." ++ o.name
  let named := l.enumName owner o.name path
  obtain ⟨hfree, hsupply⟩ := enumName_spec l owner o.name path
  obtain ⟨henum, hafter⟩ := ofOneof_eq named.2 o named.1 namespaces path
  refine ⟨named.1, (named.2.ofOneof o named.1 namespaces path).2.add
    (named.2.ofOneof o named.1 namespaces path).1, enumName_ne_empty l owner o.name path, ?_, ?_, rfl⟩
  · rw [henum]
    exact makes_add hfree hsupply hafter
  · exact fun hl => (hl.enumName owner o.name path).alternativeValues path 0 o.alternatives

theorem liftMembers_field (owner : String) (namespaces : List String) (name : String)
    (t : TypeExpr) (attributes : List Attribute) (ms : List Member) (l : Lifting) :
    liftMembers owner namespaces (.field ⟨name, t, attributes⟩ :: ms) l =
      let inside := liftInline t l
      let field := liftVariant owner namespaces name inside.1 inside.2
      (.field ⟨name, field.1, attributes⟩ :: (liftMembers owner namespaces ms field.2).1,
        (liftMembers owner namespaces ms field.2).2) := rfl

theorem liftInline_of_ne_inline {t : TypeExpr} (ht : ∀ s, t ≠ .inline s) (l : Lifting) :
    liftInline t l = (t, l) := by
  cases t with
  | inline s => exact absurd rfl (ht s)
  | _ => rfl

/-- A field whose type is a struct has no variant in reach. -/
theorem liftVariant_inline (owner : String) (namespaces : List String) (name : String)
    (s : Struct) (l : Lifting) :
    liftVariant owner namespaces name (.inline s) l = (.inline s, l) := rfl

/-! ### Lists of nodes -/

theorem liftEach_struct (s : Struct) (rest : List Node) (l : Lifting) :
    liftEach (.struct s :: rest) l = let body := liftMembers s.name s.namespaces s.members l
      (.struct { s with members := body.1 } :: (liftEach rest body.2).1,
        (liftEach rest body.2).2) := by
  rw [liftEach]

theorem liftEach_oneof (o : Oneof) (rest : List Node) (l : Lifting) :
    ∃ l₁ : Lifting, l₁.supply = l.supply ∧ (l.Reporting → l₁.Reporting) ∧
      liftEach (.oneof o :: rest) l =
      (.enum (oneofEnum o.name [] o) :: (liftEach rest l₁).1, (liftEach rest l₁).2) := by
  obtain ⟨henum, hsupply⟩ := ofOneof_eq l o o.name [] o.name
  refine ⟨_, hsupply, fun hl => hl.alternativeValues o.name 0 o.alternatives, ?_⟩
  rw [liftEach, oneofEnum, ← henum]

theorem liftEach_enum (e : Enum) (rest : List Node) (l : Lifting) :
    liftEach (.enum e :: rest) l = (.enum e :: (liftEach rest l).1, (liftEach rest l).2) := by
  rw [liftEach]

theorem liftEach_space (name : String) (inner rest : List Node) (l : Lifting) :
    liftEach (.space name inner :: rest) l = let inside := liftEach inner { l with lifted := [] }
      let after := { l with taken := inside.2.taken, diagnostics := inside.2.diagnostics }
      (.space name (inside.2.lifted ++ inside.1) :: (liftEach rest after).1,
        (liftEach rest after).2) := by
  rw [liftEach]

theorem liftEach_service (s : Service) (rest : List Node) (l : Lifting) :
    liftEach (.service s :: rest) l =
      (.service s :: (liftEach rest l).1, (liftEach rest l).2) := by
  rw [liftEach]

end Schemata.Normal
