import Schemata.Emission.Writer

/-!
Modules as TypeScript declarations: interfaces, enums of texts, and union types.
-/

namespace Schemata.Writer.TypeScript

open Emission Naming Text

def key : String := "ts"

variable (t : Target)

def path (name : String) : String := qualified t.naming "." name

/-- Variants are unions of their alternatives. -/
def lowererOf : Lowerer :=
  { t.lowerer with qualify := path t, union? := some " | " }

def typeText (type : TypeExpr) : Emit String :=
  report t.key ((lowererOf t).typeName type)

def typeOrNull : TypeExpr → Emit String
  | .missing => return "null"
  | type => typeText t type

/-- A union of objects with one property each. -/
def unionOf (t : Target) : List Alternative → Emit (List String)
  | [] => return []
  | a :: rest => do
    let type ← typeOrNull t a.type
    return (r"{ " ++ t.naming.field.apply a.name ++ ": " ++ type ++ r" }") ::
      (← unionOf t rest)

def methodLine (indent : String) (m : Method) : String :=
  indent ++ t.naming.field.apply m.name ++ "(request: " ++ path t m.request ++
    "): Promise<" ++ path t m.response ++ ">;\n"

def hooks : Hooks Emit where
  spaceOpen name c :=
    return c.indent ++ "export namespace " ++ t.naming.namespaces.apply name ++ r" {" ++ "\n"
  spaceClose _ c := return c.indent ++ r"}" ++ "\n\n"
  structOpen s c :=
    let base := if s.base = "" then "" else " extends " ++ path t s.base
    return c.indent ++ "export interface " ++ t.naming.struct.apply s.name ++ base ++ r" {" ++ "\n"
  structClose _ c := return c.indent ++ r"}" ++ "\n\n"
  field f _ c := do
    return c.indent ++ t.naming.field.apply f.name ++ ": " ++ (← typeText t f.type) ++ ";\n"
  oneof o c := do
    let union := String.intercalate " | " (← unionOf t o.alternatives)
    if c.parent.isNone then
      return c.indent ++ "export type " ++ t.naming.struct.apply o.name ++ " = " ++ union ++
        ";\n\n"
    else return c.indent ++ t.naming.field.apply o.name ++ ": " ++ union ++ ";\n"
  takeMember := dropMembers isSlot "is not flattened, dropped" key
  enumOpen e c := do
    let name := t.naming.struct.apply e.name
    if e.hasPayloads then
      let parts ← e.values.mapM fun v => typeOrNull t v.payload
      return c.indent ++ "export type " ++ name ++ " = " ++ String.intercalate " | " parts ++
        ";\n\n"
    else return c.indent ++ "export enum " ++ name ++ r" {" ++ "\n"
  enumValue v _ _ c :=
    if c.owner.any (·.hasPayloads) then return ""
    else return c.indent ++ t.naming.constant.apply v.name ++ " = " ++ quote v.name ++ ",\n"
  enumClose e c := if e.hasPayloads then return "" else return c.indent ++ r"}" ++ "\n\n"
  service s c :=
    return c.indent ++ "export interface " ++ t.naming.struct.apply s.name ++ r" {" ++ "\n" ++
      String.join (s.methods.map (methodLine t c.nest.indent)) ++ c.indent ++ r"}" ++ "\n\n"

def walker : Walker Emit := { hooks := hooks t, unit := "  " }

def write (m : Module) : String × Diagnostics :=
  let (body, s) := run ((walker t).walk m)
  (tidy (header t.comment ++ body), s.reported.diagnostics)

end TypeScript

def typeScript (t : Target) : Writer :=
  { key := TypeScript.key, target := t, write := TypeScript.write t }

end Schemata.Writer
