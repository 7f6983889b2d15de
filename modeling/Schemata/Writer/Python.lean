import Schemata.Emission.Writer
import Schemata.Normal.Order

/-!
Modules as Python dataclasses, in dependency order, since defaults name other classes. A module
is one namespace. Oneofs and variants become unions.
-/

namespace Schemata.Writer.Python

open Emission Naming

def key : String := "py"

def knownImports : List (String × String) :=
  [("datetime", "from datetime import datetime"),
   ("datetime.now", "from datetime import datetime"),
   ("date", "from datetime import date"),
   ("date.today", "from datetime import date"),
   ("time", "from datetime import time"),
   ("timedelta", "from datetime import timedelta"),
   ("Decimal", "from decimal import Decimal"),
   ("UUID", "from uuid import UUID"),
   ("uuid4", "from uuid import uuid4"),
   ("Any", "from typing import Any"),
   ("Optional", "from typing import Optional"),
   ("Union", "from typing import Union"),
   ("field", "from dataclasses import field")]

def reserved : List String :=
  fields "False None True and as assert async await break class continue def del
    elif else except finally for from global if import in is lambda nonlocal
    not or pass raise return try while with yield"

/-- The nodes without the namespaces around them. -/
def flatNodes : List Node → List Node
  | [] => []
  | .space _ inner :: rest => flatNodes inner ++ flatNodes rest
  | n :: rest => n :: flatNodes rest

def enumsOf (nodes : List Node) : List Enum :=
  (flatNodes nodes).filterMap fun
    | .enum e => some e
    | _ => none

/-! ### Imports -/

/-- A line that imports a name from a module, as that module and the name. -/
def importParts? (line : String) : Option (String × String) :=
  match ((line.dropPrefix "from ").toString).splitOn " import " with
  | module :: name :: rest => some (module, String.intercalate " import " (name :: rest))
  | _ => none

/-- One line for each module. -/
def mergedImports (lines : List String) : List String :=
  let pairs := lines.filterMap importParts?
  let modules := ((pairs.map (·.1)).eraseDups).mergeSort (· ≤ ·)
  modules.map fun module =>
    let names := (pairs.filter (·.1 == module)).map (·.2)
    "from " ++ module ++ " import " ++ String.intercalate ", " (names.mergeSort (· ≤ ·))

/-! ### Names and types -/

variable (t : Target)

def className (name : String) : String := t.naming.struct.apply (lastSegment name)

def lowererOf : Lowerer := { t.lowerer with qualify := className t }

def typeText (type : TypeExpr) : Emit String := do
  scan knownImports (← report t.key ((lowererOf t).typeName type))

def attributeName (name : String) : String :=
  escapeName reserved (· ++ "_") (t.naming.field.apply name)

variable (enums : List Enum)

/-- The default of a reference to a plain enum: its first value. -/
def enumDefault? : TypeExpr → Option String
  | .reference name _ =>
    match enums.reverse.find? (·.name == lastSegment name) with
    | some e =>
      if e.hasPayloads then none
      else match e.values with
        | [] => some "None"
        | v :: _ => some (className t e.name ++ "." ++ t.naming.constant.apply v.name)
    | none => none
  | _ => none

/-- The default of a field, empty when there is none. -/
def defaultText (type : TypeExpr) : Emit String := do
  match enumDefault? t enums type with
  | some text => return text
  | none => scan knownImports (← report t.key ((lowererOf t).defaultValue type))

def union (types : List TypeExpr) : Emit String := typeText t (unionType types)

/-! ### Declarations -/

def methodLine (indent : String) (m : Method) : String :=
  indent ++ "def " ++ attributeName t m.name ++ "(self, request: " ++ className t m.request ++
    ") -> " ++ className t m.response ++ ": ...\n"

def hooks : Hooks Emit where
  structOpen s _ := do
    resetCount
    addImport "from dataclasses import dataclass"
    let base := if s.base = "" then "" else "(" ++ className t s.base ++ ")"
    return "\n\n@dataclass\nclass " ++ className t s.name ++ base ++ ":\n"
  structClose _ _ := do
    return if (← get).count = 0 then "    pass\n" else ""
  field f _ c := do
    discard nextNumber
    let type ← typeText t f.type
    let default ← defaultText t enums f.type
    return c.indent ++ attributeName t f.name ++ ": " ++ type ++
      (if default = "" then "" else " = " ++ default) ++ "\n"
  oneof o c := do
    let text ← union t (o.alternatives.map (·.type))
    if c.parent.isNone then return "\n\n" ++ className t o.name ++ " = " ++ text ++ "\n"
    else
      discard nextNumber
      return c.indent ++ attributeName t o.name ++ ": " ++ text ++ " = None\n"
  takeMember := dropMembers isSlot "is not flattened, dropped" key
  enumOpen e _ := do
    if e.hasPayloads then
      let text ← union t (e.values.map (·.payload))
      return "\n\n" ++ className t e.name ++ " = " ++ text ++ "\n"
    else
      addImport "from enum import IntEnum"
      return "\n\nclass " ++ className t e.name ++ "(IntEnum):\n"
  enumValue v _ _ c :=
    if c.owner.any (·.hasPayloads) then return ""
    else return c.indent ++ t.naming.constant.apply v.name ++ " = " ++ showInt v.number ++ "\n"
  enumClose e _ :=
    return if !e.hasPayloads && e.values.isEmpty then "    pass\n" else ""
  service s c := do
    addImport "from typing import Protocol"
    return "\n\nclass " ++ className t s.name ++ "(Protocol):\n" ++
      String.join (s.methods.map (methodLine t c.nest.indent)) ++
      (if s.methods.isEmpty then "    pass\n" else "")

def walker : Walker Emit :=
  { hooks := hooks t enums, flatSpaces := true }

/-- A cycle is reported before the declarations are written in order. -/
def emission (m : Module) : Emit String := do
  let flat := flatNodes m.nodes
  if (Normal.inOrder? flat).isNone then
    warn .dependencyCycle "classes hold each other by value, source order kept" key ""
  (walker t (enumsOf m.nodes)).walk { m with nodes := Normal.inOrder flat }

def importText (lines : List String) : String :=
  let merged := mergedImports lines
  if merged.isEmpty then "" else "\n" ++ String.intercalate "\n" merged ++ "\n"

def write (m : Module) : String × Diagnostics :=
  let (body, s) := run (emission t m)
  let text := header t.comment ++ "from __future__ import annotations\n" ++
    importText s.imports.lines ++ body
  (String.ofList (endLine text.toList), s.reported.diagnostics)

end Python

def python (t : Target) : Writer := { key := Python.key, target := t, write := Python.write t }

end Schemata.Writer
