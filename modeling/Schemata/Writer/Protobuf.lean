import Schemata.Emission.Writer

/-!
Modules as proto3 definitions. Namespaces collapse into the package of the file, the base of a
struct becomes a leading field, variants become oneofs, and enums start at zero.
-/

namespace Schemata.Writer.Protobuf

open Emission Naming

def key : String := "proto"

def knownImports : List (String × String) :=
  [("google.protobuf.Duration", "import \"google/protobuf/duration.proto\";"),
   ("google.protobuf.Empty", "import \"google/protobuf/empty.proto\";"),
   ("google.protobuf.Timestamp", "import \"google/protobuf/timestamp.proto\";")]

def empty : String := "google.protobuf.Empty"

/-! ### What fields can hold -/

def isCollection (k : Kind) : Bool :=
  k == .list || k == .array || k == .set || k == .unorderedSet || k == .map || k == .unorderedMap

/-- Whether a type can be repeated or be the value of a map. -/
def isElement : TypeExpr → Bool
  | .indirection k elem => k != .optional && isElement elem
  | .generic k _ _ => !isCollection k && k != .variant
  | _ => true

def isMapKey : TypeExpr → Bool
  | .primitive k _ => k.isInteger || k == .string || k == .bool
  | _ => false

/-- Whether a field can hold a type; collections do not nest. -/
def isRepresentable : TypeExpr → Bool
  | .indirection _ elem => isRepresentable elem
  | .generic k args _ =>
    if k == .map || k == .unorderedMap then
      match args with
      | [name, value] => isMapKey name && isElement value
      | _ => false
    else if isCollection k then
      match args with
      | elem :: _ => isElement elem
      | [] => false
    else k != .variant
  | _ => true

/-! ### Names and types -/

variable (t : Target)

def messageName (name : String) : String :=
  t.naming.struct.apply (lastSegment name)

def lowererOf : Lowerer := { t.lowerer with qualify := messageName t }

def degrade (type : TypeExpr) (path : String) : Emit String := do
  warn .unmappedKind (type.text ++ " has no proto3 field form, written as bytes") key path
  return "bytes"

def typeText (type : TypeExpr) : Emit String := do
  scan knownImports (← report t.key ((lowererOf t).typeName type))

/-- The type of a field. Repeated and map fields are never optional. -/
def fieldType (type : TypeExpr) (path : String) : Emit String :=
  if !isRepresentable type then degrade type path
  else match type with
    | .indirection .optional elem => typeText t (if isCollection elem.kind then elem else type)
    | type => typeText t type

/-- The type of an alternative, which is optional by itself and does not repeat. -/
def alternativeType (type : TypeExpr) (path : String) : Emit String :=
  let single (type : TypeExpr) : Emit String :=
    if isElement type then typeText t type else degrade type path
  match type with
  | .missing => scan knownImports empty
  | .indirection .optional elem => single elem
  | type => single type

def options (attrs : List Attribute) : String :=
  if (attribute? attrs "deprecated").isSome then " [deprecated = true]" else ""

/-! ### Declarations -/

def alternatives (t : Target) (indent path : String) : List Alternative → Emit String
  | [] => return ""
  | a :: rest => do
    let type ← alternativeType t a.type (path ++ "." ++ a.name)
    let number ← nextNumber
    let line := indent ++ type ++ " " ++ t.naming.field.apply a.name ++ " = " ++
      toString number ++ options a.attributes ++ ";\n"
    return line ++ (← alternatives t indent path rest)

def oneofBlock (name : String) (alts : List Alternative) (path : String) (c : Context) :
    Emit String := do
  let body ← alternatives t c.nest.indent path alts
  return c.indent ++ "oneof " ++ t.naming.field.apply name ++ r" {" ++ "\n" ++ body ++
    c.indent ++ r"}" ++ "\n"

def oneofMessage (name inner : String) (alts : List Alternative) (c : Context) : Emit String := do
  resetCount
  let body ← oneofBlock t inner alts name c.nest
  return "message " ++ messageName t name ++ r" {" ++ "\n" ++ body ++ r"}" ++ "\n\n"

/-- The values with the first one numbered zero in front. -/
def zeroFirst (values : List EnumValue) : List EnumValue :=
  match values.findIdx? (·.number == 0) with
  | none => values
  | some i => (values[i]?).toList ++ values.take i ++ values.drop (i + 1)

def hasAliases (values : List EnumValue) : Bool :=
  !decide (values.map (·.number)).Nodup

def enumBlock (e : Enum) (c : Context) : String :=
  let indent := c.nest.indent
  let lead := t.naming.constant.apply e.name ++ "_"
  let values := zeroFirst e.values
  let aliases := if hasAliases values then indent ++ "option allow_alias = true;\n" else ""
  let unspecified :=
    if (values.head?.map (·.number)) == some 0 then ""
    else indent ++ lead ++ "UNSPECIFIED = 0;\n"
  let lines := values.map fun v =>
    indent ++ lead ++ t.naming.constant.apply v.name ++ " = " ++ showInt v.number ++
      options v.attributes ++ ";\n"
  "enum " ++ messageName t e.name ++ r" {" ++ "\n" ++ aliases ++ unspecified ++ String.join lines ++
    r"}" ++ "\n\n"

def methodType (name : String) : Emit String :=
  if name = "" then scan knownImports empty else return messageName t name

def methodLines (t : Target) (indent : String) : List Method → Emit String
  | [] => return ""
  | m :: rest => do
    let request ← methodType t m.request
    let response ← methodType t m.response
    let line := indent ++ "rpc " ++ pascalCase m.name ++ "(" ++ request ++ ") returns (" ++
      response ++ ");\n"
    return line ++ (← methodLines t indent rest)

def hooks : Hooks Emit where
  structOpen s c := do
    resetCount
    let head := "message " ++ messageName t s.name ++ r" {" ++ "\n"
    if s.base = "" then return head
    else
      let number ← nextNumber
      return head ++ c.nest.indent ++ messageName t s.base ++ " base = " ++ toString number ++
        ";\n"
  structClose _ _ := return r"}" ++ "\n\n"
  field f _ c := do
    let path := parentName c ++ "." ++ f.name
    match f.type with
    | .generic .variant args _ =>
      let alts := args.zipIdx.map fun (type, i) =>
        (⟨f.name ++ "_" ++ toString i, type, []⟩ : Alternative)
      oneofBlock t f.name alts path c
    | type =>
      let text ← fieldType t type path
      let number ← nextNumber
      return c.indent ++ text ++ " " ++ t.naming.field.apply f.name ++ " = " ++
        toString number ++ options f.attributes ++ ";\n"
  oneof o c :=
    if c.parent.isSome then
      oneofBlock t o.name o.alternatives (parentName c ++ "." ++ o.name) c
    else oneofMessage t o.name o.name o.alternatives c
  takeMember := dropMembers isSlot "is not flattened, dropped" key
  takeNode n c :=
    match n with
    | .enum e =>
      if e.hasPayloads then do
        let alts := e.values.map fun v => (⟨v.name, v.payload, v.attributes⟩ : Alternative)
        return some (← oneofMessage t e.name "value" alts c)
      else return some (enumBlock t e c)
    | _ => return none
  service s c := do
    let lines ← methodLines t c.nest.indent s.methods
    return "service " ++ messageName t s.name ++ r" {" ++ "\n" ++ lines ++ r"}" ++ "\n\n"

def walker : Walker Emit :=
  { hooks := hooks t, unit := "  ", flatSpaces := true }

def write (m : Module) : String × Diagnostics :=
  let (body, s) := run ((walker t).walk m)
  let package :=
    if m.namespaces.isEmpty then ""
    else "package " ++ String.intercalate "." (m.namespaces.map t.naming.namespaces.apply) ++
      ";\n\n"
  let imports :=
    if s.imports.size = 0 then "" else String.intercalate "\n" s.imports.lines ++ "\n\n"
  (tidy (header t.comment ++ "syntax = \"proto3\";\n\n" ++ package ++ imports ++ body),
    s.reported.diagnostics)

end Protobuf

def protobuf (t : Target) : Writer := { key := Protobuf.key, target := t, write := Protobuf.write t }

end Schemata.Writer
