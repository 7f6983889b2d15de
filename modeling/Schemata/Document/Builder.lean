import Schemata.Document.Basic
import Schemata.Schema.Path
import Schemata.Traversal

/-!
Modules as documents. The traversal gathers the items: what is opened gets a list of its own on a
stack, which is taken off again and put into its item when it is closed. A type may hold a struct,
for which the traversal is entered once more, over a list that ends up with a single item.
-/

namespace Schemata.Document

structure Builder where
  document : Document := {}
  /-- The lists that are being filled, the innermost first. -/
  lists : List (List (Option Item)) := []
  /-- The values of the enums that are open, those of the innermost first. -/
  values : List (List (Option Value)) := []

abbrev Build := StateM Builder

namespace Builder

def push : Build String := modifyGet fun b => ("", { b with lists := [] :: b.lists })

def pop : Build (List (Option Item)) :=
  modifyGet fun b => (b.lists.headD [], { b with lists := b.lists.tail })

/-- Puts items behind those of the innermost list. -/
def addAll (items : List (Option Item)) : Build String :=
  modifyGet fun b => ("", { b with lists := b.lists.modifyHead (· ++ items) })

def add (item : Item) : Build String := addAll [some item]

def pushEnum : Build String := modifyGet fun b => ("", { b with values := [] :: b.values })

def popEnum : Build (List (Option Value)) :=
  modifyGet fun b => (b.values.headD [], { b with values := b.values.tail })

/-- Puts values behind those of the innermost enum. -/
def addValues (values : List (Option Value)) : Build String :=
  modifyGet fun b => ("", { b with values := b.values.modifyHead (· ++ values) })

section

variable (walk : Struct → Build String)

/-- The item of a struct that stands in a type. -/
def inline (s : Struct) : Build (Option Item) := do
  discard push
  discard (walk s)
  return (← pop).headD none

mutual

def form : TypeExpr → Build (Option TypeForm)
  | .missing => return none
  | .primitive k spelling => return some { form := "primitive", kind := k.name, spelling }
  | .reference name k =>
    let kind := if k = .structRef ∨ k = .unknown then "" else k.name
    return some { form := "ref", kind, name }
  | .indirection k elem => do
    return some { form := "indirection", kind := k.name, elem := ← form elem }
  | .generic k args len => do
    return some { form := "generic", kind := k.name, args := ← forms args, len }
  | .inline body => do return some { form := "inline", struct := ← inline walk body }
  | .emptyInline => return some { form := "inline" }

def forms : List TypeExpr → Build (List (Option TypeForm))
  | [] => return []
  | t :: ts => do
    let head ← form t
    return head :: (← forms ts)

end

def alternative (a : Schemata.Alternative) : Build (Option Alternative) := do
  return some { name := a.name, type := ← form walk a.type, attributes := a.attributes }

def hooks : Hooks Build where
  header m _ := modifyGet fun b =>
    let document := { version := Version.current, source := m.source, namespaces := m.namespaces }
    ("", { b with document, lists := [[]] })
  spaceOpen _ _ := push
  spaceClose name _ := do add { kind := "namespace", name, items := ← pop }
  structOpen _ _ := push
  structClose s _ := do
    add { kind := "struct", name := s.name, namespaces := s.namespaces, attributes := s.attributes,
          anonymous := s.isAnonymous, varName := s.varName, record := s.isRecord,
          abstract := s.isAbstract, base := s.base, members := ← pop }
  field f _ _ := do
    add { kind := "field", name := f.name, attributes := f.attributes, type := ← form walk f.type }
  enumOpen _ _ := pushEnum
  enumValue v _ _ _ := do
    let payload ← form walk v.payload
    addValues [some { name := v.name, number := v.number, attributes := v.attributes, payload }]
  enumClose e _ := do
    add { kind := "enum", name := e.name, namespaces := e.namespaces, attributes := e.attributes,
          isScoped := e.isScoped, underlying := e.underlying, values := ← popEnum }
  oneof o _ := do
    add { kind := "oneof", name := o.name, attributes := o.attributes,
          alternatives := ← o.alternatives.mapM (alternative walk) }
  service s _ :=
    add { kind := "service", name := s.name, attributes := s.attributes,
          methods := s.methods.map some }

end

/-- The traversal that enters structs in types, up to `n` of them inside one another. -/
def walker : Nat → Walker Build
  | 0 => { hooks := hooks fun _ => return "", unit := "" }
  | n + 1 => { hooks := hooks ((walker n).struct {}), unit := "" }

end Builder

/-- The document of a module. Structs are not inside one another more often than there are types. -/
def ofModule (m : Module) : Document :=
  let w := Builder.walker (visitsOfNodes "" m.nodes).length
  let (_, b) := (w.walk m).run {}
  { b.document with items := b.lists.headD [] }

end Schemata.Document
