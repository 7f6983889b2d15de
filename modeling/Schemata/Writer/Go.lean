import Schemata.Emission.Writer
import Schemata.GoSyntax.Printer
import Schemata.GoSyntax.TypeReading

/-!
Modules as Go source, all in one package: structs with tags, named integers with constants for
plain enums, sealed interfaces for enums with payloads, and interfaces for services. What is
written is brought to the standard layout.
-/

namespace Schemata.Writer.Go

open Emission GoSyntax Naming Text

def key : String := "go"

def knownImports : List (String × String) :=
  [("context.Context", "context"),
   ("decimal.Decimal", "github.com/shopspring/decimal"),
   ("json.RawMessage", "encoding/json"),
   ("strconv.FormatInt", "strconv"),
   ("time.Duration", "time"),
   ("time.Time", "time"),
   ("url.URL", "net/url"),
   ("uuid.UUID", "github.com/google/uuid"),
   ("uuid.Nil", "github.com/google/uuid")]

variable (t : Target)

/-- The name of a declaration. All of them share the package, so only the last part is kept. -/
def typeName (name : String) : String := t.naming.struct.apply (lastSegment name)

def lowererOf : Lowerer :=
  { t.lowerer with passthrough := true, qualify := typeName t }

def typeText (type : TypeExpr) : Emit String := do
  scan knownImports (← report t.key ((lowererOf t).typeName type))

def constantName (e : Enum) (v : EnumValue) : String :=
  t.naming.constant.apply (typeName t e.name ++ "_" ++ v.name)

def representation (e : Enum) : String :=
  let row := (Kind.ofName? e.underlying).bind fun k =>
    if k.isInteger then t.table.lookup k else none
  match row with
  | some r => r.name
  | none =>
    if isBuiltin e.underlying && e.underlying != "string" && e.underlying != "bool"
    then e.underlying else "int"

/-- The attributes of a field; its name goes into a json tag unless there is one. -/
def taggedAttributes (f : Field) : List Attribute :=
  if (attribute? f.attributes "json").isSome then f.attributes
  else ⟨"json", f.name⟩ :: f.attributes

/-- The values that are the first of their number. -/
def firstOfNumber : List EnumValue → List EnumValue
  | [] => []
  | v :: vs => v :: (firstOfNumber vs).filter (·.number != v.number)

/-- The method that names the values of an enum. -/
def stringMethod (e : Enum) : String :=
  let name := typeName t e.name
  let cases := (firstOfNumber e.values).map fun v =>
    "\tcase " ++ constantName t e v ++ ":\n\t\treturn " ++ quote v.name ++ "\n"
  "func (v " ++ name ++ r") String() string {" ++ "\n\tswitch v" ++ r" {" ++ "\n" ++
    String.join cases ++ "\tdefault:\n\t\treturn \"" ++ name ++
    "(\" + strconv.FormatInt(int64(v), 10) + \")\"\n\t" ++ r"}" ++ "\n" ++ r"}" ++ "\n\n"

def methodLine (m : Method) : String :=
  "\t" ++ pascalCase m.name ++ "(ctx context.Context, req *" ++ typeName t m.request ++ ") (*" ++
    typeName t m.response ++ ", error)\n"

def hooks : Hooks Emit where
  structOpen s _ :=
    let base := if s.base = "" then "" else "\t" ++ typeName t s.base ++ "\n"
    return "type " ++ typeName t s.name ++ r" struct {" ++ "\n" ++ base
  structClose _ _ := return r"}" ++ "\n\n"
  field f _ c := do
    let (tag, skipped) := formatTag (taggedAttributes f)
    for name in skipped do
      warn .droppedAttribute ("attribute " ++ quote name ++ " has no struct tag spelling") key
        (parentName c ++ "." ++ f.name)
    let type ← typeText t f.type
    return "\t" ++ t.naming.field.apply f.name ++ " " ++ type ++ " \x60" ++ tag ++ "\x60\n"
  takeMember := dropMembers isField "has no Go spelling, dropped" key
  oneof o _ := do
    warn .unsupportedDeclaration ("oneof " ++ o.name ++ " has no Go spelling, dropped") key o.name
    return ""
  enumOpen e _ :=
    let name := typeName t e.name
    if e.hasPayloads then
      return "type " ++ name ++ r" interface {" ++ "\n\tis" ++ name ++ "()\n" ++ r"}" ++ "\n\n"
    else return "type " ++ name ++ " " ++ representation t e ++ "\n\nconst (\n"
  enumValue v _ _ c := do
    let e := c.owner.getD default
    let enum := typeName t e.name
    let name := constantName t e v
    if !e.hasPayloads then
      return "\t" ++ name ++ " " ++ enum ++ " = " ++ showInt v.number ++ "\n"
    else
      let body ←
        if v.payload.isMissing || v.payload.kind == .monostate then pure ""
        else do pure ("\tValue " ++ (← typeText t v.payload) ++ " \x60json:\"value\"\x60\n")
      return "type " ++ name ++ r" struct {" ++ "\n" ++ body ++ r"}" ++ "\n\nfunc (" ++ name ++
        ") is" ++ enum ++ "() {}\n\n"
  enumClose e _ := do
    if e.hasPayloads then return ""
    else
      let _ ← scan knownImports "strconv.FormatInt"
      return ")\n\n" ++ stringMethod t e
  service s _ := do
    let _ ← scan knownImports "context.Context"
    return "type " ++ typeName t s.name ++ r" interface {" ++ "\n" ++
      String.join (s.methods.map (methodLine t)) ++ r"}" ++ "\n\n"

def walker : Walker Emit := { hooks := hooks t, unit := "\t", flatSpaces := true }

/-- The package is named after the innermost namespace. -/
def packageName (m : Module) : String :=
  let name := (m.namespaces.getLast?.map Style.lowercase.apply).getD ""
  if name = "" then "schema" else name

def importBlock (im : Imports) : String :=
  if im.size = 0 then ""
  else "import (\n" ++ String.join (im.lines.map fun p => "\t" ++ quote p ++ "\n") ++ ")\n\n"

def sourceOf (m : Module) : String × State :=
  let (body, s) := run ((walker t).walk m)
  (header t.comment ++ "package " ++ packageName m ++ "\n\n" ++ importBlock s.imports ++ body, s)

/-- Source that cannot be laid out is kept, with an error. -/
def write (m : Module) : String × Diagnostics :=
  let (source, s) := sourceOf t m
  let ds := s.reported.diagnostics
  match format? source with
  | some text => (text, ds)
  | none =>
    (source, ds.add ⟨.error, .goFormat, "emitted source does not format", key, ""⟩)

end Go

def go (t : Target) : Writer := { key := Go.key, target := t, write := Go.write t }

end Schemata.Writer
