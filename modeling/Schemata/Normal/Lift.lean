import Schemata.Diagnostic
import Schemata.Naming.Style
import Schemata.Normal.Names

/-!
Lifting: a variant in a field type and a oneof in a struct become an enum whose values carry the
alternatives, and the field refers to the enum. Oneofs of a list of nodes become enums in place.
The new enums stand at the front of the list of nodes, in the order of discovery.
-/

namespace Schemata.Normal

open Naming

structure Lifting where
  /-- Every name in use in the module. -/
  taken : List String
  lifted : List Node := []
  diagnostics : Diagnostics := {}

namespace Lifting

/-- A name for the enum of a member: the member's name, with the owner's before it when that is
taken. -/
def enumName (l : Lifting) (owner member path : String) : String × Lifting :=
  let name := pascalCase member
  if l.taken.contains name then
    let fresh := freshName l.taken (owner ++ name)
    let message := name ++ " is already declared, using " ++ fresh
    (fresh, { l with
      taken := fresh :: l.taken
      diagnostics := l.diagnostics.note .nameCollision message "" path })
  else (name, { l with taken := name :: l.taken })

/-- The data of an alternative; one without a type carries the "no value" marker. -/
def payload (l : Lifting) (path : String) : TypeExpr → TypeExpr × Lifting
  | .missing =>
    let message := "typeless alternative carries monostate"
    (.prim .monostate,
      { l with diagnostics := l.diagnostics.warn .typelessAlternative message "" path })
  | t => (t, l)

/-- One value for each argument of a variant, from number `i` on. -/
def variantValues (path : String) : Nat → List TypeExpr → Lifting → List EnumValue × Lifting
  | _, [], l => ([], l)
  | i, t :: ts, l =>
    let name := "Variant" ++ toString i
    let (payload, l) := l.payload (path ++ "." ++ name) t
    let (values, l) := variantValues path (i + 1) ts l
    (⟨name, Int64.ofNat i, [], payload⟩ :: values, l)

/-- One value for each alternative of a oneof, from number `i` on. -/
def alternativeValues (path : String) :
    Nat → List Alternative → Lifting → List EnumValue × Lifting
  | _, [], l => ([], l)
  | i, a :: as, l =>
    let (payload, l) := l.payload (path ++ "." ++ a.name) a.type
    let (values, l) := alternativeValues path (i + 1) as l
    (⟨a.name, Int64.ofNat i, a.attributes, payload⟩ :: values, l)

def ofOneof (l : Lifting) (o : Oneof) (name : String) (namespaces : List String) (path : String) :
    Enum × Lifting :=
  let (values, l) := alternativeValues path 0 o.alternatives l
  (⟨name, namespaces, o.attributes, true, "", values⟩, l)

def add (l : Lifting) (e : Enum) : Lifting := { l with lifted := l.lifted ++ [.enum e] }

end Lifting

/-- The arguments of the variant below the leading indirections of a type, with what puts another
type in its place. -/
def variantIn? : TypeExpr → Option (List TypeExpr × (TypeExpr → TypeExpr))
  | .generic .variant args _ => some (args, id)
  | .indirection k elem => (variantIn? elem).map fun (args, wrap) => (args, .indirection k ∘ wrap)
  | _ => none

/-- A field type with its variant, if it has one, turned into an enum. -/
def liftVariant (owner : String) (namespaces : List String) (name : String) (type : TypeExpr)
    (l : Lifting) : TypeExpr × Lifting :=
  match variantIn? type with
  | none => (type, l)
  | some (args, wrap) =>
    let path := owner ++ "." ++ name
    let (enum, l) := l.enumName owner name path
    let (values, l) := Lifting.variantValues path 0 args l
    (wrap (.ref enum), l.add ⟨enum, namespaces, [], true, "", values⟩)

mutual

/-- The members of the struct called `owner`, with their sum types lifted. -/
def liftMembers (owner : String) (namespaces : List String) :
    List Member → Lifting → List Member × Lifting
  | [], l => ([], l)
  | .field ⟨name, type, attrs⟩ :: ms, l =>
    let (type, l) := liftInline type l
    let (type, l) := liftVariant owner namespaces name type l
    let (ms, l) := liftMembers owner namespaces ms l
    (.field ⟨name, type, attrs⟩ :: ms, l)
  | .oneof o :: ms, l =>
    let path := owner ++ "." ++ o.name
    let (enum, l) := l.enumName owner o.name path
    let (e, l) := l.ofOneof o enum namespaces path
    let (ms, l) := liftMembers owner namespaces ms (l.add e)
    (.field ⟨o.name, .ref enum, o.attributes⟩ :: ms, l)
  | .enum e :: ms, l =>
    let (ms, l) := liftMembers owner namespaces ms l
    (.enum e :: ms, l)
  | .struct ⟨name, spaces, attrs, anonymous, var, record, abstract, base, members⟩ :: ms, l =>
    let (members, l) := liftMembers name spaces members l
    let (ms, l) := liftMembers owner namespaces ms l
    (.struct ⟨name, spaces, attrs, anonymous, var, record, abstract, base, members⟩ :: ms, l)

/-- Lifts inside a struct that is inlined directly as a field type. -/
def liftInline : TypeExpr → Lifting → TypeExpr × Lifting
  | .inline ⟨name, spaces, attrs, anonymous, var, record, abstract, base, members⟩, l =>
    let (members, l) := liftMembers name spaces members l
    (.inline ⟨name, spaces, attrs, anonymous, var, record, abstract, base, members⟩, l)
  | t, l => (t, l)

end

/-- The nodes of a list lifted in place; the new enums are in the state. -/
def liftEach : List Node → Lifting → List Node × Lifting
  | [], l => ([], l)
  | .struct s :: rest, l =>
    let (members, l) := liftMembers s.name s.namespaces s.members l
    let (rest, l) := liftEach rest l
    (.struct { s with members } :: rest, l)
  | .oneof o :: rest, l =>
    let (e, l) := l.ofOneof o o.name [] o.name
    let (rest, l) := liftEach rest l
    (.enum e :: rest, l)
  | .enum e :: rest, l =>
    let (rest, l) := liftEach rest l
    (.enum e :: rest, l)
  | .space name inner :: rest, l =>
    let (nodes, inside) := liftEach inner { l with lifted := [] }
    let (rest, l) := liftEach rest
      { l with taken := inside.taken, diagnostics := inside.diagnostics }
    (.space name (inside.lifted ++ nodes) :: rest, l)
  | .service s :: rest, l =>
    let (rest, l) := liftEach rest l
    (.service s :: rest, l)

/-- Lifts the sum types of a module and reports what it had to decide. -/
def lift (m : Module) : Module × Diagnostics :=
  let (nodes, l) := liftEach m.nodes { taken := namesOfNodes m.nodes }
  ({ m with nodes := l.lifted ++ nodes }, l.diagnostics)

end Schemata.Normal
