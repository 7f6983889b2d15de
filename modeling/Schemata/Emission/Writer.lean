import Schemata.Catalog.Basic
import Schemata.Emission.Imports
import Schemata.Emission.Layout
import Schemata.Traversal

/-!
Writers of target notations. While a module is written its imports and the reports about what
cannot be written are collected.
-/

namespace Schemata.Emission

open Naming

structure State where
  reported : Reported := {}
  imports : Imports := {}
  /-- How many parts of the current declaration are numbered or written. -/
  count : Nat := 0

abbrev Emit := StateM State

def warn (code : Code) (message target path : String) : Emit Unit :=
  modify fun s =>
    { s with reported.diagnostics := s.reported.diagnostics.warn code message target path }

def scan (known : List (String × String)) (text : String) : Emit String := do
  modify fun s => { s with imports := s.imports.scan known text }
  return text

def addImport (line : String) : Emit Unit :=
  modify fun s => { s with imports := s.imports.add line }

/-- The text of a lowered type; degradations are reported. -/
def report (target : String) (l : Lowered) : Emit String := do
  modify fun s => { s with reported := s.reported.record target l.degradations }
  return l.text

def nextNumber : Emit Nat :=
  modifyGet fun s => (s.count + 1, { s with count := s.count + 1 })

def resetCount : Emit Unit := modify fun s => { s with count := 0 }

def parentName (c : Context) : String := (c.parent.map (·.name)).getD ""

/-- A member that is left out, unless `keep` says that the notation has a form for it. -/
def dropMembers (keep : Member → Bool) (what : String) (target : String) (m : Member)
    (c : Context) : Emit (Option String) := do
  if keep m then return none
  else
    warn .unsupportedDeclaration ("nested " ++ m.name ++ " " ++ what) target (parentName c)
    return some ""

def isField : Member → Bool
  | .field _ => true
  | _ => false

def isSlot : Member → Bool
  | .field _ | .oneof _ => true
  | _ => false

/-- A dotted name with its namespaces and its last part in their styles. -/
def qualified (naming : NamingStyles) (separator name : String) : String :=
  let parts := (name.splitOn ".")
  let spaces := parts.dropLast.map naming.namespaces.apply
  let last := naming.struct.apply (parts.getLast?.getD "")
  String.intercalate separator (spaces ++ [last])

/-- A part of a union; one without a type holds nothing. -/
def unionPart : TypeExpr → TypeExpr
  | .missing => .prim .monostate
  | type => type

def unionType (types : List TypeExpr) : TypeExpr := .container .variant (types.map unionPart)

def run {α : Type} (e : Emit α) : α × State := StateT.run e {}

end Emission

structure Writer where
  key : String
  target : Target
  /-- The text of a module, and what it cannot say. -/
  write : Module → String × Diagnostics
  /-- Whether the notation reports anything at all. -/
  reports : Bool := true

end Schemata
