import Mathlib
import Schemata.Schema.Validity

/-!
Validity without paths. Where a rule is broken does not matter for whether one is: `SoundNodes`
states the rules by recursion on the declarations alone, and a module has no issues exactly if
its nodes are sound. The slots of a struct and the values of an enum are distinct as lists,
while the check goes through them one by one and keeps what it has seen.
-/

namespace Schemata

open List

variable {seen : List String}

/-- The slots the members of a struct fill, in order. -/
def slotNames (ms : List Member) : List String := (ms.map Member.slot).filter (· ≠ "")

def valueNames (values : List EnumValue) : List String := values.map EnumValue.name

theorem valueNames_cons (v : EnumValue) (values : List EnumValue) :
    valueNames (v :: values) = v.name :: valueNames values := rfl

/-- A struct has a name, or is marked as having none. -/
def Struct.IsTitled (s : Struct) : Prop := s.isAnonymous = true ∨ s.name ≠ ""

mutual

/-- A type whose kinds agree with its shape and in which nothing is missing. -/
def SoundType : TypeExpr → Prop
  | .missing | .emptyInline => False
  | .primitive k _ => k = .unknown ∨ k.isPrimitive = true
  | .reference name _ => name ≠ ""
  | .indirection k elem => k.isIndirection = true ∧ SoundType elem
  | .generic k args _ => arityProblems k args.length = [] ∧ SoundTypes args
  | .inline s => SoundStruct s

def SoundTypes : List TypeExpr → Prop
  | [] => True
  | t :: ts => SoundType t ∧ SoundTypes ts

def SoundStruct : Struct → Prop
  | ⟨name, _, _, isAnonymous, _, _, _, _, members⟩ =>
    (isAnonymous = true ∨ name ≠ "") ∧ (slotNames members).Nodup ∧ SoundMembers members

/-- What every member has to keep to on its own. -/
def SoundMembers : List Member → Prop
  | [] => True
  | m :: ms => SoundMember m ∧ SoundMembers ms

def SoundMember : Member → Prop
  | .field ⟨_, type, _⟩ => SoundType type
  | .oneof ⟨_, _, alts⟩ => alts ≠ [] ∧ SoundAlternatives alts
  | .enum ⟨_, _, _, _, _, values⟩ => (valueNames values).Nodup ∧ SoundValues values
  | .struct s => SoundStruct s

/-- An alternative may have no type. -/
def SoundAlternatives : List Alternative → Prop
  | [] => True
  | ⟨_, type, _⟩ :: alts => (type = .missing ∨ SoundType type) ∧ SoundAlternatives alts

/-- A value may carry nothing. -/
def SoundValues : List EnumValue → Prop
  | [] => True
  | ⟨_, _, _, payload⟩ :: values => (payload = .missing ∨ SoundType payload) ∧ SoundValues values

end

mutual

def SoundNode : Node → Prop
  | .struct s => SoundStruct s
  | .enum e => (valueNames e.values).Nodup ∧ SoundValues e.values
  | .oneof o => o.alternatives ≠ [] ∧ SoundAlternatives o.alternatives
  | .space _ inner => SoundNodes inner
  | .service _ => True

def SoundNodes : List Node → Prop
  | [] => True
  | d :: rest => SoundNode d ∧ SoundNodes rest

end

theorem soundStruct_iff (s : Struct) :
    SoundStruct s ↔ s.IsTitled ∧ (slotNames s.members).Nodup ∧ SoundMembers s.members := by
  cases s
  rw [SoundStruct, Struct.IsTitled]

@[simp] theorem soundMember_oneof (o : Oneof) :
    SoundMember (.oneof o) ↔ o.alternatives ≠ [] ∧ SoundAlternatives o.alternatives := by
  cases o
  rw [SoundMember]

@[simp] theorem soundMember_enum (e : Enum) :
    SoundMember (.enum e) ↔ (valueNames e.values).Nodup ∧ SoundValues e.values := by
  cases e
  rw [SoundMember]

@[simp] theorem soundMembers_append (xs ys : List Member) :
    SoundMembers (xs ++ ys) ↔ SoundMembers xs ∧ SoundMembers ys := by
  induction xs with
  | nil => simp [SoundMembers]
  | cons m xs ih => simp [SoundMembers, ih, and_assoc]

@[simp] theorem soundNodes_append (xs ys : List Node) :
    SoundNodes (xs ++ ys) ↔ SoundNodes xs ∧ SoundNodes ys := by
  induction xs with
  | nil => simp [SoundNodes]
  | cons d xs ih => simp [SoundNodes, ih, and_assoc]

theorem soundTypes_iff (ts : List TypeExpr) : SoundTypes ts ↔ ∀ t ∈ ts, SoundType t := by
  induction ts with
  | nil => simp [SoundTypes]
  | cons t ts ih => rw [SoundTypes, ih, forall_mem_cons]

theorem soundAlternatives_iff (alts : List Alternative) :
    SoundAlternatives alts ↔ ∀ a ∈ alts, a.type = .missing ∨ SoundType a.type := by
  induction alts with
  | nil => simp [SoundAlternatives]
  | cons a alts ih =>
    cases a
    rw [SoundAlternatives, ih, forall_mem_cons]

theorem soundValues_of_payloads {values : List EnumValue}
    (h : ∀ t ∈ values.map EnumValue.payload, SoundType t) : SoundValues values := by
  induction values with
  | nil => trivial
  | cons v values ih =>
    rw [map_cons, forall_mem_cons] at h
    cases v
    exact ⟨.inr h.1, ih h.2⟩

/-! ### Names seen one by one -/

/-- The names come once each, and none of them was seen before. -/
def Unseen (seen names : List String) : Prop := names.Nodup ∧ ∀ n ∈ names, n ∉ seen

theorem unseen_nil {names : List String} : Unseen [] names ↔ names.Nodup := by
  simp [Unseen]

theorem unseen_cons {names : List String} {n : String} :
    Unseen seen (n :: names) ↔ n ∉ seen ∧ Unseen (n :: seen) names := by
  simp only [Unseen, nodup_cons, mem_cons, forall_eq_or_imp, not_or]
  constructor
  · rintro ⟨⟨hnot, hnodup⟩, hn, hnames⟩
    exact ⟨hn, hnodup, fun x hx => ⟨fun h => hnot (h ▸ hx), hnames x hx⟩⟩
  · rintro ⟨hn, hnodup, hnames⟩
    exact ⟨⟨fun h => (hnames n h).1 rfl, hnodup⟩, hn, fun x hx => (hnames x hx).2⟩

/-- A member that fills no slot is never in the way. -/
theorem unseen_slots_cons {m : Member} {ms : List Member} :
    Unseen seen (slotNames (m :: ms)) ↔
      (m.slot = "" ∨ m.slot ∉ seen) ∧ Unseen (m.slot :: seen) (slotNames ms) := by
  by_cases hslot : m.slot = ""
  · have hsame : slotNames (m :: ms) = slotNames ms := by simp [slotNames, hslot]
    have hmem : ∀ n ∈ slotNames ms, n ≠ "" := by simp [slotNames]
    rw [hsame, hslot]
    simp only [Unseen, true_or, true_and, mem_cons, not_or]
    exact and_congr_right fun _ =>
      ⟨fun h n hn => ⟨hmem n hn, h n hn⟩, fun h n hn => (h n hn).2⟩
  · have hmore : slotNames (m :: ms) = m.slot :: slotNames ms := by simp [slotNames, hslot]
    rw [hmore, unseen_cons]
    simp [hslot]

theorem slotNames_enum (e : Enum) (ms : List Member) :
    slotNames (.enum e :: ms) = slotNames ms := rfl

theorem slotIssues_eq_nil {path slot : String} :
    slotIssues path seen slot = [] ↔ slot = "" ∨ slot ∉ seen := by
  unfold slotIssues
  split
  next h => simp_all
  next h =>
    simp only [true_iff]
    simp only [not_and_or, contains_iff_mem] at h
    tauto

/-- A type that may be missing is only checked when it is there. -/
theorem optionalIssues_eq_nil {t : TypeExpr} {path : String}
    (ht : t.issues path = [] ↔ SoundType t) :
    (if t.isMissing then [] else t.issues path) = [] ↔ t = .missing ∨ SoundType t := by
  cases t with
  | missing => simp [TypeExpr.isMissing]
  | _ => simp [TypeExpr.isMissing, ht]

/-! ### No issues -/

mutual

theorem TypeExpr.issues_eq_nil : ∀ (t : TypeExpr) (path : String), t.issues path = [] ↔ SoundType t
  | .missing, _ => by simp [TypeExpr.issues, SoundType]
  | .emptyInline, _ => by simp [TypeExpr.issues, SoundType]
  | .primitive k _, _ => by
    simp only [TypeExpr.issues, SoundType]
    split
    next h => simp_all
    next h => simp_all; tauto
  | .reference name _, _ => by simp [TypeExpr.issues, SoundType]
  | .indirection k elem, path => by
    rw [TypeExpr.issues, SoundType, append_eq_nil_iff, elem.issues_eq_nil path]
    simp
  | .generic k args _, path => by
    rw [TypeExpr.issues, SoundType, append_eq_nil_iff, map_eq_nil_iff,
      issuesOfTypes_eq_nil args path]
  | .inline s, path => s.issues_eq_nil path

theorem issuesOfTypes_eq_nil : ∀ (ts : List TypeExpr) (path : String),
    issuesOfTypes path ts = [] ↔ SoundTypes ts
  | [], _ => by simp [issuesOfTypes, SoundTypes]
  | t :: ts, path => by
    rw [issuesOfTypes, SoundTypes, append_eq_nil_iff, t.issues_eq_nil path,
      issuesOfTypes_eq_nil ts path]

theorem Struct.issues_eq_nil : ∀ (s : Struct) (path : String), s.issues path = [] ↔ SoundStruct s
  | ⟨name, _, _, isAnonymous, _, _, _, _, members⟩, path => by
    rw [Struct.issues, SoundStruct, append_eq_nil_iff, issuesOfMembers_eq_nil members path [],
      unseen_nil]
    cases isAnonymous <;> simp

theorem issuesOfMembers_eq_nil : ∀ (ms : List Member) (path : String) (seen : List String),
    issuesOfMembers path seen ms = [] ↔ Unseen seen (slotNames ms) ∧ SoundMembers ms
  | [], _, _ => by simp [issuesOfMembers, SoundMembers, Unseen, slotNames]
  | .field ⟨name, type, _⟩ :: ms, path, seen => by
    rw [issuesOfMembers, SoundMembers, SoundMember, unseen_slots_cons, append_eq_nil_iff,
      append_eq_nil_iff, slotIssues_eq_nil, type.issues_eq_nil, issuesOfMembers_eq_nil ms]
    simp only [Member.slot]
    tauto
  | .oneof ⟨name, _, alts⟩ :: ms, path, seen => by
    rw [issuesOfMembers, SoundMembers, SoundMember, unseen_slots_cons, append_eq_nil_iff,
      append_eq_nil_iff, append_eq_nil_iff, slotIssues_eq_nil,
      issuesOfAlternatives_eq_nil alts, issuesOfMembers_eq_nil ms]
    simp only [Member.slot, List.isEmpty_iff, ite_eq_right_iff, reduceCtorEq, imp_false]
    tauto
  | .enum ⟨name, _, _, _, _, values⟩ :: ms, path, seen => by
    rw [issuesOfMembers, SoundMembers, SoundMember, append_eq_nil_iff,
      issuesOfValues_eq_nil values, issuesOfMembers_eq_nil ms, unseen_nil, slotNames_enum]
    tauto
  | .struct ⟨name, _, _, isAnonymous, var, _, _, _, members⟩ :: ms, path, seen => by
    rw [issuesOfMembers, SoundMembers, SoundMember, SoundStruct, unseen_slots_cons,
      append_eq_nil_iff, append_eq_nil_iff, append_eq_nil_iff, slotIssues_eq_nil,
      issuesOfMembers_eq_nil members, issuesOfMembers_eq_nil ms, unseen_nil]
    cases isAnonymous <;> simp [Member.slot] <;> tauto

theorem issuesOfAlternatives_eq_nil : ∀ (alts : List Alternative) (path : String),
    issuesOfAlternatives path alts = [] ↔ SoundAlternatives alts
  | [], _ => by simp [issuesOfAlternatives, SoundAlternatives]
  | ⟨name, type, _⟩ :: alts, path => by
    rw [issuesOfAlternatives, SoundAlternatives, append_eq_nil_iff,
      issuesOfAlternatives_eq_nil alts path, optionalIssues_eq_nil (type.issues_eq_nil _)]

theorem issuesOfValues_eq_nil : ∀ (values : List EnumValue) (path : String) (seen : List String),
    issuesOfValues path seen values = [] ↔ Unseen seen (valueNames values) ∧ SoundValues values
  | [], _, _ => by simp [issuesOfValues, SoundValues, Unseen, valueNames]
  | ⟨name, _, _, payload⟩ :: values, path, seen => by
    rw [issuesOfValues, SoundValues, append_eq_nil_iff, append_eq_nil_iff,
      issuesOfValues_eq_nil values, optionalIssues_eq_nil (payload.issues_eq_nil _),
      valueNames_cons, unseen_cons]
    simp only [contains_iff_mem, ite_eq_right_iff, reduceCtorEq, imp_false]
    tauto

end

theorem issuesOfNodes_eq_nil : ∀ (nodes : List Node) (path : String),
    issuesOfNodes path nodes = [] ↔ SoundNodes nodes
  | [], _ => by
    rw [issuesOfNodes, SoundNodes]
    simp
  | .struct s :: rest, path => by
    rw [issuesOfNodes, SoundNodes, SoundNode, append_eq_nil_iff, s.issues_eq_nil,
      issuesOfNodes_eq_nil rest]
  | .enum e :: rest, path => by
    rw [issuesOfNodes, SoundNodes, SoundNode, append_eq_nil_iff, issuesOfValues_eq_nil,
      unseen_nil, issuesOfNodes_eq_nil rest]
  | .oneof o :: rest, path => by
    rw [issuesOfNodes, SoundNodes, SoundNode, append_eq_nil_iff, append_eq_nil_iff,
      issuesOfAlternatives_eq_nil, issuesOfNodes_eq_nil rest]
    simp
  | .space name inner :: rest, path => by
    rw [issuesOfNodes, SoundNodes, SoundNode, append_eq_nil_iff, issuesOfNodes_eq_nil inner,
      issuesOfNodes_eq_nil rest]
  | .service s :: rest, path => by
    rw [issuesOfNodes, SoundNodes, SoundNode, issuesOfNodes_eq_nil rest]
    simp

/-- A module is valid exactly if its nodes are sound. -/
theorem issues_eq_nil_iff (m : Module) : m.issues = [] ↔ SoundNodes m.nodes :=
  issuesOfNodes_eq_nil m.nodes ""

end Schemata
