import Mathlib
import Schemata.Schema.Validity

/-!
Well-shaped schemas. What a check reports of them is a name that repeats or a oneof without
alternatives, never the shape of a type. A type is well shaped if that holds of its issues below
every path, so each way to build a type has one lemma, and readers are followed by these.
-/

namespace Schemata

variable {k : Kind} {s : Struct}

/-- Issues that leave every type as it is: names that repeat and oneofs that are empty. -/
def SpareTypes (issues : List Issue) : Prop :=
  ∀ i ∈ issues, i.problem ∈ [Problem.duplicateMember, .duplicateValue, .emptyOneof]

@[simp] theorem spareTypes_nil : SpareTypes [] := by simp [SpareTypes]

@[simp] theorem spareTypes_append (xs ys : List Issue) :
    SpareTypes (xs ++ ys) ↔ SpareTypes xs ∧ SpareTypes ys := List.forall_mem_append

@[simp] theorem spareTypes_singleton (path : String) (p : Problem) :
    SpareTypes [⟨path, p⟩] ↔ p ∈ [Problem.duplicateMember, .duplicateValue, .emptyOneof] := by
  simp [SpareTypes]

theorem spareTypes_ite {c : Prop} [Decidable c] {issues : List Issue} (h : c → SpareTypes issues) :
    SpareTypes (if c then issues else []) := by
  split
  next hc => exact h hc
  next => exact spareTypes_nil

@[simp] theorem spareTypes_slotIssues (path : String) (seen : List String) (slot : String) :
    SpareTypes (slotIssues path seen slot) :=
  spareTypes_ite fun _ => by simp

/-! ### Types -/

theorem arityProblems_eq_nil_iff {given : Nat} :
    arityProblems k given = [] ↔
      k.isContainer = true ∧ 0 < given ∧ ∀ n, k.arity? = some n → given = n := by
  have hpos : ∀ n, k.arity? = some n → 0 < n := by
    cases k <;> simp [Kind.arity?]
  rw [arityProblems]
  cases hk : k.isContainer with
  | false => simp
  | true =>
    cases harity : k.arity? with
    | none => simp [Nat.pos_iff_ne_zero]
    | some wanted =>
      have hwanted := hpos wanted harity
      simp only [Bool.not_true, Bool.false_eq_true, if_false, ite_eq_left_iff,
        List.cons_ne_nil, imp_false, not_not, true_and, Option.some.injEq, forall_eq']
      omega

def TypeExpr.IsShaped (t : TypeExpr) : Prop := ∀ path, SpareTypes (t.issues path)

/-- A type that may be left out. -/
def TypeExpr.IsShapedIfGiven (t : TypeExpr) : Prop := t = .missing ∨ t.IsShaped

def Struct.IsShaped (s : Struct) : Prop := ∀ path, SpareTypes (s.issues path)

def Member.IsShaped : Member → Prop
  | .field f => f.type.IsShaped
  | .oneof o => ∀ a ∈ o.alternatives, a.type.IsShapedIfGiven
  | .enum e => ∀ v ∈ e.values, v.payload.IsShapedIfGiven
  | .struct s => s.IsShaped

theorem isShaped_primitive (hk : k = .unknown ∨ k.isPrimitive = true) (spelling : String) :
    (TypeExpr.primitive k spelling).IsShaped := by
  intro path
  refine spareTypes_ite fun h => ?_
  rcases hk with hk | hk <;> simp [hk] at h

theorem isShaped_reference {name : String} (hname : name ≠ "") (k : Kind) :
    (TypeExpr.reference name k).IsShaped := by
  intro path
  exact spareTypes_ite fun h => absurd h hname

theorem isShaped_indirection (hk : k.isIndirection = true) {elem : TypeExpr}
    (helem : elem.IsShaped) : (TypeExpr.indirection k elem).IsShaped := by
  intro path
  refine (spareTypes_append _ _).mpr ⟨?_, helem path⟩
  rw [if_pos hk]
  exact spareTypes_nil

theorem spareTypes_issuesOfTypes {ts : List TypeExpr} (hts : ∀ t ∈ ts, t.IsShaped)
    (path : String) : SpareTypes (issuesOfTypes path ts) := by
  induction ts with
  | nil => exact spareTypes_nil
  | cons t ts ih =>
    obtain ⟨ht, hts⟩ := List.forall_mem_cons.mp hts
    exact (spareTypes_append _ _).mpr ⟨ht path, ih hts⟩

theorem isShaped_generic {args : List TypeExpr} (hk : arityProblems k args.length = [])
    (hargs : ∀ t ∈ args, t.IsShaped) (len : Int64) : (TypeExpr.generic k args len).IsShaped := by
  intro path
  refine (spareTypes_append _ _).mpr ⟨?_, spareTypes_issuesOfTypes hargs path⟩
  rw [hk]
  exact spareTypes_nil

theorem isShaped_inline (hs : s.IsShaped) : (TypeExpr.inline s).IsShaped := by
  intro path
  exact hs path

/-! ### Declarations -/

theorem TypeExpr.IsShapedIfGiven.spareTypes {t : TypeExpr} (ht : t.IsShapedIfGiven)
    (path : String) : SpareTypes (if t.isMissing then [] else t.issues path) := by
  rcases ht with rfl | ht
  · exact spareTypes_nil
  · split
    · exact spareTypes_nil
    · exact ht path

theorem spareTypes_issuesOfAlternatives {alts : List Alternative}
    (halts : ∀ a ∈ alts, a.type.IsShapedIfGiven) (path : String) :
    SpareTypes (issuesOfAlternatives path alts) := by
  induction alts with
  | nil => exact spareTypes_nil
  | cons a alts ih =>
    obtain ⟨ha, hrest⟩ := List.forall_mem_cons.mp halts
    cases a
    exact (spareTypes_append _ _).mpr ⟨ha.spareTypes _, ih hrest⟩

theorem spareTypes_issuesOfValues {values : List EnumValue}
    (hvalues : ∀ v ∈ values, v.payload.IsShapedIfGiven) (path : String) (seen : List String) :
    SpareTypes (issuesOfValues path seen values) := by
  induction values generalizing seen with
  | nil => exact spareTypes_nil
  | cons v values ih =>
    obtain ⟨hv, hrest⟩ := List.forall_mem_cons.mp hvalues
    cases v
    refine (spareTypes_append _ _).mpr ⟨(spareTypes_append _ _).mpr ⟨?_, ?_⟩, ih hrest _⟩
    · exact spareTypes_ite fun _ => by simp
    · exact hv.spareTypes _

theorem spareTypes_issuesOfMembers {ms : List Member} (hms : ∀ m ∈ ms, m.IsShaped)
    (path : String) (seen : List String) : SpareTypes (issuesOfMembers path seen ms) := by
  induction ms generalizing seen with
  | nil => exact spareTypes_nil
  | cons m ms ih =>
    obtain ⟨hm, hrest⟩ := List.forall_mem_cons.mp hms
    cases m with
    | field f =>
      cases f
      simp only [issuesOfMembers, spareTypes_append, spareTypes_slotIssues, true_and]
      exact ⟨hm _, ih hrest _⟩
    | oneof o =>
      cases o
      simp only [issuesOfMembers, spareTypes_append, spareTypes_slotIssues, true_and]
      exact ⟨⟨spareTypes_ite fun _ => by simp, spareTypes_issuesOfAlternatives hm _⟩, ih hrest _⟩
    | enum e =>
      cases e
      rw [issuesOfMembers, spareTypes_append]
      exact ⟨spareTypes_issuesOfValues hm _ _, ih hrest _⟩
    | struct s =>
      cases s
      have hinner := hm
      simp only [Member.IsShaped, Struct.IsShaped, Struct.issues, spareTypes_append] at hinner
      simp only [issuesOfMembers, spareTypes_append, spareTypes_slotIssues, true_and]
      exact ⟨hinner _, ih hrest _⟩

/-- A struct has a name, or is marked as having none. -/
theorem Struct.isShaped (htitle : s.isAnonymous = true ∨ s.name ≠ "")
    (hmembers : ∀ m ∈ s.members, m.IsShaped) : s.IsShaped := by
  intro path
  cases s
  refine (spareTypes_append _ _).mpr
    ⟨spareTypes_ite fun h => ?_, spareTypes_issuesOfMembers hmembers _ _⟩
  simp only [Bool.and_eq_true, Bool.not_eq_true', beq_iff_eq] at h
  exact absurd htitle (by simp [h])

/-! ### Nodes -/

def Node.IsShaped (d : Node) : Prop := ∀ path, SpareTypes (issuesOfNodes path [d])

theorem spareTypes_issuesOfNodes {ds : List Node} (hds : ∀ d ∈ ds, d.IsShaped) (path : String) :
    SpareTypes (issuesOfNodes path ds) := by
  induction ds with
  | nil => rw [issuesOfNodes]; exact spareTypes_nil
  | cons d ds ih =>
    obtain ⟨hd, hrest⟩ := List.forall_mem_cons.mp hds
    have hfirst := hd path
    cases d <;> simp only [issuesOfNodes, spareTypes_append] at hfirst ⊢ <;> grind

theorem isShaped_structNode (hs : s.IsShaped) : (Node.struct s).IsShaped := by
  intro path
  simpa [issuesOfNodes] using hs _

theorem isShaped_enumNode {e : Enum} (he : ∀ v ∈ e.values, v.payload.IsShapedIfGiven) :
    (Node.enum e).IsShaped := by
  intro path
  simpa [issuesOfNodes] using spareTypes_issuesOfValues he _ _

theorem isShaped_oneofNode {o : Oneof} (ho : ∀ a ∈ o.alternatives, a.type.IsShapedIfGiven) :
    (Node.oneof o).IsShaped := by
  intro path
  rw [issuesOfNodes, issuesOfNodes, List.append_nil, spareTypes_append]
  exact ⟨spareTypes_ite fun _ => by simp, spareTypes_issuesOfAlternatives ho _⟩

theorem isShaped_space {nodes : List Node} (hnodes : ∀ d ∈ nodes, d.IsShaped) (name : String) :
    (Node.space name nodes).IsShaped := by
  intro path
  simpa [issuesOfNodes] using spareTypes_issuesOfNodes hnodes _

theorem isShaped_service (s : Service) : (Node.service s).IsShaped := by
  intro path
  simp [issuesOfNodes]

end Schemata
