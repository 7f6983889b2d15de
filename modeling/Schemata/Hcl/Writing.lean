import Schemata.Emission.Writer
import Schemata.Hcl.Layout
import Schemata.Hcl.TypeReading

/-!
Modules written in the block language. All declarations have a form of their own there, so a
module keeps its structure and nothing is reported.
-/

namespace Schemata.Hcl

open Text Emission

/-! ### Names -/

/-- One character inside quotation marks; `next` is the character after it. -/
def escapeChar (c : Char) (next : Option Char) : List Char :=
  match c with
  | '\n' => ['\\', 'n']
  | '\r' => ['\\', 'r']
  | '\t' => ['\\', 't']
  | '"' => ['\\', '"']
  | '\\' => ['\\', '\\']
  | c =>
    if (c = '$' ∨ c = '%') ∧ next = some '{' then [c, c]
    else if isPrintable c then [c]
    else if c.toNat < 0x10000 then '\\' :: 'u' :: hex 4 c.toNat
    else '\\' :: 'U' :: hex 8 c.toNat

def escapeChars : List Char → List Char
  | [] => []
  | c :: cs => escapeChar c cs.head? ++ escapeChars cs

def quoted (s : String) : String :=
  String.ofList ('"' :: escapeChars (composed s).toList ++ ['"'])

/-- The key of an item, bare when it is an identifier. -/
def keyText (s : String) : String := if isIdentifier s.toList then s else quoted s

/-- The name of a declaration, bare when each of its parts is an identifier. -/
def nameText (s : String) : String :=
  if (s.toList.splitOn '.').all isIdentifier then s else quoted s

/-! ### Types -/

def constructorName (k : Kind) : String :=
  if k = .array then "array"
  else (((indirections ++ containers).find? (·.2 == k)).map (·.1)).getD ""

mutual

def typeText : TypeExpr → String
  | .missing => ""
  | .primitive k spelling => if k = .unknown then "opaque(" ++ quoted spelling ++ ")" else k.name
  | .reference name _ => nameText name
  | .indirection k elem => constructorName k ++ "(" ++ typeText elem ++ ")"
  | .generic k args len =>
    let length := if k = .array then [showInt len] else []
    constructorName k ++ "(" ++ String.intercalate ", " (typeTexts args ++ length) ++ ")"
  | .inline ⟨_, _, _, _, _, _, _, _, members⟩ =>
    match fieldTexts members with
    | [] => "object({})"
    | parts => r"object({ " ++ String.intercalate ", " parts ++ r" })"
  | .emptyInline => "object({})"

def typeTexts : List TypeExpr → List String
  | [] => []
  | t :: ts => typeText t :: typeTexts ts

/-- The fields of an inline struct; other members have no form there. -/
def fieldTexts : List Member → List String
  | [] => []
  | .field ⟨name, type, _⟩ :: ms => (keyText name ++ " = " ++ typeText type) :: fieldTexts ms
  | _ :: ms => fieldTexts ms

end

/-! ### Declarations -/

def attributesLine (attrs : List Attribute) (indent : String) : String :=
  if attrs.isEmpty then ""
  else
    let parts := attrs.map fun a => keyText a.name ++ " = " ++ quoted a.value
    indent ++ r"attributes = { " ++ String.intercalate ", " parts ++ r" }" ++ "\n"

/-- A line that sets a name, left out when there is nothing to set. -/
def settingLine (indent name value : String) : String :=
  if value = "" then "" else indent ++ name ++ " = " ++ value ++ "\n"

def quotedLine (indent name value : String) : String :=
  if value = "" then "" else settingLine indent name (quoted value)

def nameLine (indent name value : String) : String :=
  if value = "" then "" else settingLine indent name (nameText value)

def flagLine (indent name : String) (value : Bool) : String :=
  if value then indent ++ name ++ " = true\n" else ""

def openLine (indent kind name : String) : String :=
  indent ++ kind ++ " " ++ quoted name ++ r" {" ++ "\n"

def closeBlock (c : Context) : String :=
  if c.level = 0 then r"}" ++ "\n\n" else c.indent ++ r"}" ++ "\n"

def alternativeBlock (c : Context) (a : Alternative) : String :=
  let inner := c.nest.indent
  let type := match a.type with
    | .missing => ""
    | t => inner ++ "type = " ++ typeText t ++ "\n"
  openLine c.indent "alt" a.name ++ type ++ attributesLine a.attributes inner ++
    c.indent ++ r"}" ++ "\n"

def methodBlock (c : Context) (m : Method) : String :=
  let inner := c.nest.indent
  openLine c.indent "rpc" m.name ++ nameLine inner "request" m.request ++
    nameLine inner "response" m.response ++ attributesLine m.attributes inner ++
    c.indent ++ r"}" ++ "\n"

def hooks : Hooks Id where
  header m _ :=
    if m.namespaces.isEmpty then ""
    else "namespace = [" ++ String.intercalate ", " (m.namespaces.map quoted) ++ "]\n\n"
  spaceOpen name c := openLine c.indent "namespace" name
  spaceClose _ c := closeBlock c
  structOpen s c :=
    let inner := c.nest.indent
    let opening :=
      if s.isAnonymous then c.indent ++ r"struct {" ++ "\n" else openLine c.indent "struct" s.name
    opening ++ quotedLine inner "var" s.varName ++ nameLine inner "base" s.base ++
      flagLine inner "record" s.isRecord ++ flagLine inner "abstract" s.isAbstract ++
      attributesLine s.attributes inner
  structClose _ c := closeBlock c
  field f _ c :=
    openLine c.indent "field" f.name ++ c.nest.indent ++ "type = " ++ typeText f.type ++ "\n" ++
      attributesLine f.attributes c.nest.indent ++ c.indent ++ r"}" ++ "\n"
  enumOpen e c :=
    let inner := c.nest.indent
    openLine c.indent "enum" e.name ++ flagLine inner "scoped" e.isScoped ++
      quotedLine inner "underlying" e.underlying ++ attributesLine e.attributes inner
  enumValue v _ _ c :=
    let inner := c.nest.indent
    let payload := match v.payload with
      | .missing => ""
      | t => inner ++ "payload = " ++ typeText t ++ "\n"
    openLine c.indent "value" v.name ++ inner ++ "number = " ++ showInt v.number ++ "\n" ++
      payload ++ attributesLine v.attributes inner ++ c.indent ++ r"}" ++ "\n"
  enumClose _ c := closeBlock c
  oneof o c :=
    openLine c.indent "oneof" o.name ++ attributesLine o.attributes c.nest.indent ++
      String.join (o.alternatives.map (alternativeBlock c.nest)) ++ closeBlock c
  service s c :=
    openLine c.indent "service" s.name ++ attributesLine s.attributes c.nest.indent ++
      String.join (s.methods.map (methodBlock c.nest)) ++ closeBlock c

def walker : Walker Id := { hooks := hooks, unit := "  " }

def write (m : Module) : String :=
  String.ofList (endLine (formatted (walker.walk m)).toList)

end Schemata.Hcl

namespace Schemata.Writer

def hcl (t : Target) : Writer :=
  { key := "hcl", target := t, write := fun m => (Hcl.write m, {}), reports := false }

end Schemata.Writer
