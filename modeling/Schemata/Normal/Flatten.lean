import Schemata.Diagnostic
import Schemata.Naming.Words
import Schemata.Normal.Names

/-!
Flattening: every nested struct, nested enum and inline struct of a module is moved to the top of
the list of nodes that held it, and a reference takes its place. A struct member without a name
or a slot gives its members to its parent. What is moved stands before what refers to it, in the
order of discovery.
-/

namespace Schemata.Normal

open Naming

structure Hoisting where
  /-- Every name in use in the module. -/
  taken : List String
  /-- The declarations moved out so far, in order. -/
  hoisted : List Node := []
  /-- The namespace path of the declaration being flattened. -/
  namespaces : List String := []
  diagnostics : Diagnostics := {}

namespace Hoisting

/-- Takes a fresh name, noting it when it is not the one wanted. -/
def claim (h : Hoisting) (name path : String) : String × Hoisting :=
  let fresh := freshName h.taken name
  let h := { h with taken := fresh :: h.taken }
  let message := name ++ " is already declared, using " ++ fresh
  (fresh, if fresh = name then h else
    { h with diagnostics := h.diagnostics.note .nameCollision message "" path })

/-- Moves a struct out; it inherits the namespace path unless it has one. -/
def addStruct (h : Hoisting) (s : Struct) : Hoisting :=
  let s := if s.namespaces.isEmpty then { s with namespaces := h.namespaces } else s
  { h with hoisted := h.hoisted ++ [.struct s] }

/-- Moves an enum out; it inherits the namespace path unless it has one. -/
def addEnum (h : Hoisting) (e : Enum) : Hoisting :=
  let e := if e.namespaces.isEmpty then { e with namespaces := h.namespaces } else e
  { h with hoisted := h.hoisted ++ [.enum e] }

/-- Leaves an inline type without a struct where it is. -/
def reportBodiless (h : Hoisting) (path : String) : Hoisting :=
  let message := "inline type without a struct left in place"
  { h with diagnostics := h.diagnostics.warn .anonymousInline message "" path }

end Hoisting

mutual

/-- A type without inline structs. `name` is what an unnamed struct found in it is to be called,
and `path` where it stands. -/
def flattenType (name path : String) : TypeExpr → Hoisting → TypeExpr × Hoisting
  | .missing, h => (.missing, h)
  | .primitive k s, h => (.primitive k s, h)
  | .reference n k, h => (.reference n k, h)
  | .emptyInline, h => (.emptyInline, h.reportBodiless path)
  | .indirection k elem, h =>
    let (elem, h) := flattenType name path elem h
    (.indirection k elem, h)
  | .generic k args len, h =>
    let (args, h) := flattenTypes name path args h
    (.generic k args len, h)
  | .inline ⟨own, spaces, attrs, anonymous, _, record, abstract, base, members⟩, h =>
    let unnamed := anonymous || own == ""
    let (own, h) := if unnamed then h.claim name path else (own, h)
    let (members, h) := flattenMembers own false members h
    (.ref own, h.addStruct ⟨own, spaces, attrs, false, "", record, abstract, base, members⟩)

def flattenTypes (name path : String) : List TypeExpr → Hoisting → List TypeExpr × Hoisting
  | [], h => ([], h)
  | t :: ts, h =>
    let (t, h) := flattenType name path t h
    let (ts, h) := flattenTypes name path ts h
    (t :: ts, h)

/-- The members of the struct called `owner`, as fields and oneofs only. `root` tells whether the
struct is a declaration of its own. -/
def flattenMembers (owner : String) (root : Bool) :
    List Member → Hoisting → List Member × Hoisting
  | [], h => ([], h)
  | .field ⟨name, type, attrs⟩ :: ms, h =>
    let (type, h) := flattenType (owner ++ capitalize name) (owner ++ "." ++ name) type h
    let (ms, h) := flattenMembers owner root ms h
    (.field ⟨name, type, attrs⟩ :: ms, h)
  | .oneof ⟨name, attrs, alts⟩ :: ms, h =>
    let (alts, h) := flattenAlternatives owner alts h
    let (ms, h) := flattenMembers owner root ms h
    (.oneof ⟨name, attrs, alts⟩ :: ms, h)
  | .enum ⟨name, spaces, attrs, isScoped, underlying, values⟩ :: ms, h =>
    let (values, h) := flattenValues name values h
    flattenMembers owner root ms (h.addEnum ⟨name, spaces, attrs, isScoped, underlying, values⟩)
  | .struct ⟨own, spaces, attrs, anonymous, var, record, abstract, base, members⟩ :: ms, h =>
    let unnamed := anonymous || own == ""
    if unnamed && var == "" then
      let (given, h) := flattenMembers owner root members h
      let (ms, h) := flattenMembers owner root ms h
      (given ++ ms, h)
    else if unnamed then
      let wanted := (if root then "Anonymous" else owner) ++ capitalize var
      let (own, h) := h.claim wanted (owner ++ "." ++ var)
      let (members, h) := flattenMembers own false members h
      let h := h.addStruct ⟨own, spaces, [], false, "", record, abstract, base, members⟩
      let (ms, h) := flattenMembers owner root ms h
      (.field ⟨var, .ref own, attrs⟩ :: ms, h)
    else
      let (members, h) := flattenMembers own false members h
      if var == "" then
        flattenMembers owner root ms
          (h.addStruct ⟨own, spaces, attrs, false, "", record, abstract, base, members⟩)
      else
        let h := h.addStruct ⟨own, spaces, [], false, "", record, abstract, base, members⟩
        let (ms, h) := flattenMembers owner root ms h
        (.field ⟨var, .ref own, attrs⟩ :: ms, h)

def flattenAlternatives (owner : String) :
    List Alternative → Hoisting → List Alternative × Hoisting
  | [], h => ([], h)
  | ⟨name, type, attrs⟩ :: alts, h =>
    let (type, h) := flattenType (owner ++ capitalize name) (owner ++ "." ++ name) type h
    let (alts, h) := flattenAlternatives owner alts h
    (⟨name, type, attrs⟩ :: alts, h)

def flattenValues (owner : String) : List EnumValue → Hoisting → List EnumValue × Hoisting
  | [], h => ([], h)
  | ⟨name, number, attrs, payload⟩ :: values, h =>
    let (payload, h) := flattenType (owner ++ capitalize name) (owner ++ "." ++ name) payload h
    let (values, h) := flattenValues owner values h
    (⟨name, number, attrs, payload⟩ :: values, h)

end

/-- The nodes of a list flattened in place; what they held is in the state. -/
def flattenEach : List Node → Hoisting → List Node × Hoisting
  | [], h => ([], h)
  | .struct s :: rest, h =>
    let (members, h) := flattenMembers s.name true s.members { h with namespaces := s.namespaces }
    let (rest, h) := flattenEach rest h
    (.struct { s with members } :: rest, h)
  | .enum e :: rest, h =>
    let (values, h) := flattenValues e.name e.values { h with namespaces := e.namespaces }
    let (rest, h) := flattenEach rest h
    (.enum { e with values } :: rest, h)
  | .oneof o :: rest, h =>
    let (alternatives, h) := flattenAlternatives o.name o.alternatives { h with namespaces := [] }
    let (rest, h) := flattenEach rest h
    (.oneof { o with alternatives } :: rest, h)
  | .space name inner :: rest, h =>
    let (nodes, inside) := flattenEach inner { h with hoisted := [], namespaces := [] }
    let (rest, h) := flattenEach rest
      { h with taken := inside.taken, diagnostics := inside.diagnostics }
    (.space name (inside.hoisted ++ nodes) :: rest, h)
  | .service s :: rest, h =>
    let (rest, h) := flattenEach rest h
    (.service s :: rest, h)

def flatten (m : Module) : Module × Diagnostics :=
  let (nodes, h) := flattenEach m.nodes { taken := namesOfNodes m.nodes }
  ({ m with nodes := h.hoisted ++ nodes }, h.diagnostics)

end Schemata.Normal
