import Schemata.Emission.Writer

/-!
Modules as Rust source: structs, plain enums, enums with payloads for sum types, and traits for
services.
-/

namespace Schemata.Writer.Rust

open Emission Naming

def key : String := "rs"

def knownImports : List (String × String) :=
  [("BTreeMap", "use std::collections::BTreeMap;"),
   ("BTreeSet", "use std::collections::BTreeSet;"),
   ("HashMap", "use std::collections::HashMap;"),
   ("HashSet", "use std::collections::HashSet;"),
   ("Arc", "use std::sync::Arc;"),
   ("Duration", "use std::time::Duration;"),
   ("DateTime", "use chrono::{DateTime, Utc};"),
   ("NaiveDate", "use chrono::NaiveDate;"),
   ("NaiveTime", "use chrono::NaiveTime;"),
   ("Uuid", "use uuid::Uuid;"),
   ("Decimal", "use rust_decimal::Decimal;")]

def reserved : List String :=
  fields "as async await break const continue crate dyn else enum extern false fn
    for if impl in let loop match mod move mut pub ref return self static
    struct super trait true type unsafe use where while"

variable (t : Target)

def path (name : String) : String := qualified t.naming "::" name

def lowererOf : Lowerer := { t.lowerer with qualify := path t }

def typeText (type : TypeExpr) : Emit String := do
  scan knownImports (← report t.key ((lowererOf t).typeName type))

def fieldName (name : String) : String :=
  escapeName reserved ("r#" ++ ·) (t.naming.field.apply name)

/-- The integer type an enum is represented by, empty for the default. -/
def representation (e : Enum) : String :=
  match Kind.ofName? e.underlying with
  | some k => if k.isInteger then ((t.table.lookup k).map (·.name)).getD "" else ""
  | none => ""

def methodLine (indent : String) (m : Method) : String :=
  indent ++ "fn " ++ fieldName t m.name ++ "(&self, request: " ++ path t m.request ++
    ") -> Result<" ++ path t m.response ++ ", Box<dyn std::error::Error>>;\n"

def hooks : Hooks Emit where
  spaceOpen name c :=
    return c.indent ++ "pub mod " ++ t.naming.namespaces.apply name ++ r" {" ++ "\n" ++
      c.nest.indent ++ "use super::*;\n\n"
  spaceClose _ c := return c.indent ++ r"}" ++ "\n\n"
  structOpen s c :=
    let base :=
      if s.base = "" then "" else c.nest.indent ++ "pub base: " ++ path t s.base ++ ",\n"
    return c.indent ++ "#[derive(Debug, Clone, PartialEq)]\n" ++
      c.indent ++ "pub struct " ++ path t s.name ++ r" {" ++ "\n" ++ base
  structClose _ c := return c.indent ++ r"}" ++ "\n\n"
  field f _ c := do
    return c.indent ++ "pub " ++ fieldName t f.name ++ ": " ++ (← typeText t f.type) ++ ",\n"
  takeMember := dropMembers isField "has no Rust spelling, dropped" key
  oneof o _ := do
    warn .unsupportedDeclaration ("oneof " ++ o.name ++ " has no Rust spelling, dropped") key o.name
    return ""
  enumOpen e c :=
    let opening := c.indent ++ "pub enum " ++ path t e.name ++ r" {" ++ "\n"
    if e.hasPayloads then return c.indent ++ "#[derive(Debug, Clone, PartialEq)]\n" ++ opening
    else
      let repr := representation t e
      return c.indent ++ "#[derive(Debug, Clone, Copy, PartialEq, Eq, Hash)]\n" ++
        (if repr = "" then "" else c.indent ++ "#[repr(" ++ repr ++ ")]\n") ++ opening
  enumValue v _ _ c := do
    let name := t.naming.constant.apply v.name
    if !(c.owner.any (·.hasPayloads)) then
      return c.indent ++ name ++ " = " ++ showInt v.number ++ ",\n"
    else if v.payload.isMissing || v.payload.kind == .monostate then
      return c.indent ++ name ++ ",\n"
    else return c.indent ++ name ++ "(" ++ (← typeText t v.payload) ++ "),\n"
  enumClose _ c := return c.indent ++ r"}" ++ "\n\n"
  service s c :=
    return c.indent ++ "pub trait " ++ path t s.name ++ r" {" ++ "\n" ++
      String.join (s.methods.map (methodLine t c.nest.indent)) ++ c.indent ++ r"}" ++ "\n\n"

def walker : Walker Emit := { hooks := hooks t }

def importText (lines : List String) : String :=
  if lines.length = 0 then "" else String.intercalate "\n" lines ++ "\n\n"

def write (m : Module) : String × Diagnostics :=
  let (body, s) := run ((walker t).walk m)
  (tidy (header t.comment ++ importText s.imports.lines ++ body), s.reported.diagnostics)

end Rust

def rust (t : Target) : Writer := { key := Rust.key, target := t, write := Rust.write t }

end Schemata.Writer
