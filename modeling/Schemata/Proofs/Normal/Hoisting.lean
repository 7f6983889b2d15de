import Schemata.Proofs.Normal.PassReports
import Schemata.Proofs.Normal.Supply

/-!
What flattening does to its state. Whatever part of a module is flattened, the
declarations moved out of it are appended to those moved before, and their names
are the names declared in that part together with fresh ones. Each fresh name is
given once, and none of them was in use.
-/

namespace Schemata.Normal

open Naming

variable {s : Struct}

/-! ### The steps of flattening

One equation for each thing that can happen to a struct, with the parts of the
state written as projections. -/

/-- A struct as it stands once it is moved out: under its final name, without a
slot, with the attributes that stay with it. -/
def movedStruct (s : Struct) (name : String) (attributes : List Attribute)
    (members : List Member) : Struct :=
  ⟨name, s.namespaces, attributes, false, "", s.isRecord, s.isAbstract, s.base, members⟩

variable (namespaces : List String)

/-- The namespace path of a struct, taken from its surroundings when it has none. -/
def inheritSpaces (s : Struct) : Struct :=
  if s.namespaces.isEmpty then { s with namespaces } else s

def inheritEnumSpaces (e : Enum) : Enum :=
  if e.namespaces.isEmpty then { e with namespaces } else e

/-- The name an unnamed struct in a slot asks for. -/
def slotName (owner : String) (root : Bool) (var : String) : String :=
  (if root then "Anonymous" else owner) ++ capitalize var

@[simp] theorem inheritSpaces_name (s : Struct) : (inheritSpaces namespaces s).name = s.name := by
  unfold inheritSpaces
  split <;> rfl

@[simp] theorem inheritSpaces_members (s : Struct) :
    (inheritSpaces namespaces s).members = s.members := by
  unfold inheritSpaces
  split <;> rfl

@[simp] theorem inheritSpaces_attributes (s : Struct) :
    (inheritSpaces namespaces s).attributes = s.attributes := by
  unfold inheritSpaces
  split <;> rfl

@[simp] theorem inheritEnumSpaces_name (e : Enum) :
    (inheritEnumSpaces namespaces e).name = e.name := by
  unfold inheritEnumSpaces
  split <;> rfl

theorem unnamed_eq_not_isNamed (s : Struct) : (s.isAnonymous || s.name == "") = !s.isNamed := by
  simp [Struct.isNamed, bne]

/-- The state after the body of a struct is flattened under `name` and the struct is
moved out. -/
def hoistStruct (s : Struct) (name : String) (attributes : List Attribute) (h : Hoisting) :
    Hoisting :=
  (flattenMembers name false s.members h).2.addStruct
    (movedStruct s name attributes (flattenMembers name false s.members h).1)

variable {owner name path : String} {root : Bool} {ms : List Member} {h : Hoisting}

theorem flattenType_inline (s : Struct) :
    flattenType name path (.inline s) h =
      let c := if s.isAnonymous || s.name == "" then h.claim name path else (s.name, h)
      (.ref c.1, hoistStruct s c.1 s.attributes c.2) := by
  cases s
  rfl

theorem flattenType_inline_named (hs : s.isNamed = true) :
    flattenType name path (.inline s) h =
      (.ref s.name, hoistStruct s s.name s.attributes h) := by
  rw [flattenType_inline, unnamed_eq_not_isNamed, hs]
  rfl

theorem flattenType_inline_unnamed (hs : s.isNamed = false) :
    flattenType name path (.inline s) h =
      (.ref (h.claim name path).1,
        hoistStruct s (h.claim name path).1 s.attributes (h.claim name path).2) := by
  rw [flattenType_inline, unnamed_eq_not_isNamed, hs]
  rfl

/-- What becomes of a struct among members: its own members stay, or it is moved out and leaves a
field in its slot, or it leaves nothing. -/
theorem flattenMembers_struct (s : Struct) :
    flattenMembers owner root (.struct s :: ms) h =
      let field (name : String) (after : Hoisting) :=
        (.field ⟨s.varName, .ref name, s.attributes⟩ :: (flattenMembers owner root ms after).1,
          (flattenMembers owner root ms after).2)
      if (s.isAnonymous || s.name == "") && s.varName == "" then
        let body := flattenMembers owner root s.members h
        (body.1 ++ (flattenMembers owner root ms body.2).1, (flattenMembers owner root ms body.2).2)
      else if s.isAnonymous || s.name == "" then
        let c := h.claim (slotName owner root s.varName) (owner ++ "." ++ s.varName)
        field c.1 (hoistStruct s c.1 [] c.2)
      else if s.varName == "" then
        flattenMembers owner root ms (hoistStruct s s.name s.attributes h)
      else field s.name (hoistStruct s s.name [] h) := by
  cases s
  rfl

/-- A struct without a name or a slot gives its members to its parent. -/
theorem flattenMembers_splice (hs : s.isNamed = false) (hvar : s.varName = "") :
    flattenMembers owner root (.struct s :: ms) h =
      ((flattenMembers owner root s.members h).1 ++
          (flattenMembers owner root ms (flattenMembers owner root s.members h).2).1,
        (flattenMembers owner root ms (flattenMembers owner root s.members h).2).2) := by
  simp only [flattenMembers_struct, unnamed_eq_not_isNamed, hs, hvar]
  rfl

/-- An unnamed struct in a slot is moved out under a fresh name, and a field takes the
slot. -/
theorem flattenMembers_slot_unnamed (hs : s.isNamed = false) (hvar : s.varName ≠ "") :
    flattenMembers owner root (.struct s :: ms) h =
      let c := h.claim (slotName owner root s.varName) (owner ++ "." ++ s.varName)
      (.field ⟨s.varName, .ref c.1, s.attributes⟩ ::
          (flattenMembers owner root ms (hoistStruct s c.1 [] c.2)).1,
        (flattenMembers owner root ms (hoistStruct s c.1 [] c.2)).2) := by
  have hslot : (s.varName == "") = false := beq_false_of_ne hvar
  simp only [flattenMembers_struct, unnamed_eq_not_isNamed, hs, hslot]
  rfl

theorem flattenMembers_slot_named (hs : s.isNamed = true) (hvar : s.varName ≠ "") :
    flattenMembers owner root (.struct s :: ms) h =
      (.field ⟨s.varName, .ref s.name, s.attributes⟩ ::
          (flattenMembers owner root ms (hoistStruct s s.name [] h)).1,
        (flattenMembers owner root ms (hoistStruct s s.name [] h)).2) := by
  have hslot : (s.varName == "") = false := beq_false_of_ne hvar
  simp only [flattenMembers_struct, unnamed_eq_not_isNamed, hs, hslot]
  rfl

/-- A named struct without a slot leaves nothing behind. -/
theorem flattenMembers_named (hs : s.isNamed = true) (hvar : s.varName = "") :
    flattenMembers owner root (.struct s :: ms) h =
      flattenMembers owner root ms (hoistStruct s s.name s.attributes h) := by
  simp only [flattenMembers_struct, unnamed_eq_not_isNamed, hs, hvar]
  rfl

/-! ### The names a module declares itself -/

/-- The name of a struct that has one of its own. -/
def ownName (s : Struct) : List String := if s.isNamed then [s.name] else []

mutual

/-- The names declared inside a type, wherever they stand in it: those of its named
inline structs and of what its inline structs nest. -/
def ownNamesOfType : TypeExpr → List String
  | .missing | .primitive _ _ | .reference _ _ | .emptyInline => []
  | .indirection _ elem => ownNamesOfType elem
  | .generic _ args _ => ownNamesOfTypes args
  | .inline s => ownNamesOfStruct s

def ownNamesOfTypes : List TypeExpr → List String
  | [] => []
  | t :: ts => ownNamesOfType t ++ ownNamesOfTypes ts

def ownNamesOfStruct : Struct → List String
  | ⟨name, namespaces, attributes, anonymous, var, record, abstract, base, members⟩ =>
    ownName ⟨name, namespaces, attributes, anonymous, var, record, abstract, base, members⟩ ++
      ownNamesOfMembers members

def ownNamesOfMembers : List Member → List String
  | [] => []
  | .field ⟨_, type, _⟩ :: ms => ownNamesOfType type ++ ownNamesOfMembers ms
  | .oneof ⟨_, _, alts⟩ :: ms => ownNamesOfAlternatives alts ++ ownNamesOfMembers ms
  | .enum ⟨name, _, _, _, _, values⟩ :: ms =>
    name :: ownNamesOfValues values ++ ownNamesOfMembers ms
  | .struct s :: ms => ownNamesOfStruct s ++ ownNamesOfMembers ms

def ownNamesOfAlternatives : List Alternative → List String
  | [] => []
  | ⟨_, type, _⟩ :: alts => ownNamesOfType type ++ ownNamesOfAlternatives alts

def ownNamesOfValues : List EnumValue → List String
  | [] => []
  | ⟨_, _, _, payload⟩ :: values => ownNamesOfType payload ++ ownNamesOfValues values

end

theorem ownNamesOfStruct_eq (s : Struct) :
    ownNamesOfStruct s = ownName s ++ ownNamesOfMembers s.members := by
  cases s
  rw [ownNamesOfStruct]

/-! ### How the state grows -/

def Hoisting.supply (h : Hoisting) : Supply := ⟨h.taken, h.hoisted⟩

variable (h)

theorem moves_addStruct (s : Struct) :
    Moves h.supply [s.name] [] [.struct (inheritSpaces h.namespaces s)] []
      (h.addStruct s).supply := by
  have hcollect := moves_collect h.supply
    (d := .struct (inheritSpaces h.namespaces s)) rfl
  simp only [Node.name, inheritSpaces_name] at hcollect
  exact hcollect

theorem moves_addEnum (e : Enum) :
    Moves h.supply [e.name] [] [.enum (inheritEnumSpaces h.namespaces e)] []
      (h.addEnum e).supply := by
  have hcollect := moves_collect h.supply
    (d := .enum (inheritEnumSpaces h.namespaces e)) rfl
  simp only [Node.name, inheritEnumSpaces_name] at hcollect
  exact hcollect

theorem claim_fst (name path : String) :
    (h.claim name path).1 = freshName h.taken name := rfl

theorem claim_supply (name path : String) :
    (h.claim name path).2.supply = ⟨(h.claim name path).1 :: h.taken, h.hoisted⟩ := by
  simp only [Hoisting.claim, Hoisting.supply]
  split <;> rfl

theorem claim_notMem (name path : String) : (h.claim name path).1 ∉ h.taken := by
  rw [claim_fst]
  exact freshName_notMem h.taken name

/-! ### Lists of nodes -/

variable {rest : List Node}

theorem flattenEach_struct (s : Struct) :
    flattenEach (.struct s :: rest) h =
      let body := flattenMembers s.name true s.members { h with namespaces := s.namespaces }
      (.struct { s with members := body.1 } :: (flattenEach rest body.2).1,
        (flattenEach rest body.2).2) := by
  rw [flattenEach]

theorem flattenEach_enum (e : Enum) :
    flattenEach (.enum e :: rest) h =
      let body := flattenValues e.name e.values { h with namespaces := e.namespaces }
      (.enum { e with values := body.1 } :: (flattenEach rest body.2).1,
        (flattenEach rest body.2).2) := by
  rw [flattenEach]

theorem flattenEach_oneof (o : Oneof) :
    flattenEach (.oneof o :: rest) h =
      let body := flattenAlternatives o.name o.alternatives { h with namespaces := [] }
      (.oneof { o with alternatives := body.1 } :: (flattenEach rest body.2).1,
        (flattenEach rest body.2).2) := by
  rw [flattenEach]

theorem flattenEach_space (name : String) (inner : List Node) :
    flattenEach (.space name inner :: rest) h =
      let inside := flattenEach inner { h with hoisted := [], namespaces := [] }
      let after := { h with taken := inside.2.taken, diagnostics := inside.2.diagnostics }
      (.space name (inside.2.hoisted ++ inside.1) :: (flattenEach rest after).1,
        (flattenEach rest after).2) := by
  rw [flattenEach]

theorem flattenEach_service (s : Service) :
    flattenEach (.service s :: rest) h =
      (.service s :: (flattenEach rest h).1, (flattenEach rest h).2) := by
  rw [flattenEach]

mutual

/-- The names a node declares: its own and those inside it. A namespace only holds
declarations. -/
def ownNamesOfNode : Node → List String
  | .struct s => s.name :: ownNamesOfMembers s.members
  | .enum e => e.name :: ownNamesOfValues e.values
  | .oneof o => o.name :: ownNamesOfAlternatives o.alternatives
  | .space _ inner => ownNamesOfNodes inner
  | .service s => [s.name]

def ownNamesOfNodes : List Node → List String
  | [] => []
  | d :: rest => ownNamesOfNode d ++ ownNamesOfNodes rest

end

end Schemata.Normal
