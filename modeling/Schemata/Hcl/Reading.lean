import Schemata.Failure
import Schemata.Hcl.Body
import Schemata.Hcl.TypeReading

/-!
Schemas read from texts of the block language. Declarations keep their order across kinds of
blocks. Values of an enum without a number are one past the value before them.
-/

namespace Schemata.Hcl

open Text

/-! ### Settings -/

/-- Refuses the first setting that is not among the allowed ones. -/
def allowSettings (allowed : List String) (b : Body) : Reading Unit :=
  match b.settings.find? fun s => !allowed.contains s.name with
  | some s => refuse s.place (.unknownSetting s.name)
  | none => .ok ()

/-- Refuses blocks, and settings that are not among the allowed ones. -/
def leaf (allowed : List String) (b : Block) : Reading Unit :=
  match b.body.blocks with
  | inner :: _ => refuse inner.place (.blockInLeaf inner.kind b.kind)
  | [] => allowSettings allowed b.body

variable (b : Block)

/-- The single label of a block; none when it has no label. -/
def label? : Reading (Option String) :=
  match b.labels with
  | [] => .ok none
  | [(name, _)] => .ok (some name)
  | _ :: (_, place) :: _ => refuse place (.oneName b.kind b.labels.length)

def label : Reading String := do
  match ← label? b with
  | some name => return name
  | none => refuse b.place (.needsName b.kind)

def attributesIn : List (Expression × Expression) → Reading (List Attribute)
  | [] => .ok []
  | (key, value) :: rest => do
    let name ← keyOf key
    let text ← textOf value
    return ⟨name, text⟩ :: (← attributesIn rest)

def attributesOf (b : Body) : Reading (List Attribute) :=
  match b.find? "attributes" with
  | none => .ok []
  | some (.object _ items) => attributesIn items
  | some e => refuse e.mark .malformed

def textSetting (b : Body) (name : String) : Reading String :=
  match b.find? name with
  | none => .ok ""
  | some e => textOf e

def flagSetting (b : Body) (name : String) : Reading Bool :=
  match b.find? name with
  | none => .ok false
  | some e => flagOf e

def nameSetting (b : Body) (name : String) : Reading String :=
  match b.find? name with
  | none => .ok ""
  | some e =>
    match nameOf? e with
    | some n => .ok n
    | none => textOf e

def typeSetting (b : Body) (name : String) : Reading TypeExpr :=
  match b.find? name with
  | none => .ok .missing
  | some e => typeOf e

/-- Reads the type that a text sets as the only line of a body. -/
def readTypeLine (text : String) : Reading TypeExpr :=
  match parse ("type = " ++ text ++ "\n").toUTF8.toList with
  | .error place => refuse place .malformed
  | .ok body => typeSetting body "type"

/-- A list of texts; a text alone is a list of one. -/
def textsOf : Expression → Reading (List String)
  | .tuple _ es => es.mapM textOf
  | e =>
    match textOf e with
    | .ok s => .ok [s]
    | .error _ => refuse e.mark .malformed

/-! ### Declarations -/

def readField : Reading Field := do
  let name ← label b
  leaf ["type", "attributes"] b
  match b.body.find? "type" with
  | none => refuse b.body.place (.fieldWithoutType name)
  | some e =>
    let type ← typeOf e
    return ⟨name, type, ← attributesOf b.body⟩

/-- A value of an enum; `next` is its number unless it gives one. -/
def readValue (next : Int64) (b : Block) : Reading EnumValue := do
  let name ← label b
  leaf ["number", "payload", "attributes"] b
  let number ← match b.body.find? "number" with
    | none => pure next
    | some e => integerOf e
  let payload ← typeSetting b.body "payload"
  return ⟨name, number, ← attributesOf b.body, payload⟩

def readValues (enumName : String) (next : Int64) : List Block → Reading (List EnumValue)
  | [] => .ok []
  | b :: rest => do
    if b.kind ≠ "value" then refuse b.place (.blockInside b.kind "enum" enumName)
    else
      let v ← readValue next b
      return v :: (← readValues enumName (v.number + 1) rest)

def readEnum : Reading Enum := do
  let name ← label b
  allowSettings ["attributes", "scoped", "underlying"] b.body
  let attributes ← attributesOf b.body
  let isScoped ← flagSetting b.body "scoped"
  let underlying ← textSetting b.body "underlying"
  let values ← readValues name 0 b.body.blocks
  return { name, attributes, isScoped, underlying, values }

def readAlternative (oneofName : String) (b : Block) : Reading Alternative := do
  if b.kind ≠ "alt" then refuse b.place (.blockInside b.kind "oneof" oneofName)
  else
    let name ← label b
    leaf ["type", "attributes"] b
    let type ← typeSetting b.body "type"
    return ⟨name, type, ← attributesOf b.body⟩

def readOneof : Reading Oneof := do
  let name ← label b
  allowSettings ["attributes"] b.body
  let attributes ← attributesOf b.body
  return ⟨name, attributes, ← b.body.blocks.mapM (readAlternative name)⟩

def readMethod (serviceName : String) (b : Block) : Reading Method := do
  if b.kind ≠ "rpc" then refuse b.place (.blockInside b.kind "service" serviceName)
  else
    let name ← label b
    leaf ["request", "response", "attributes"] b
    let request ← nameSetting b.body "request"
    let response ← nameSetting b.body "response"
    return { name, request, response, attributes := ← attributesOf b.body }

def readService : Reading Service := do
  let name ← label b
  allowSettings ["attributes"] b.body
  let attributes ← attributesOf b.body
  return { name, attributes, methods := ← b.body.blocks.mapM (readMethod name) }

mutual

def readStruct : Block → Reading Struct
  | ⟨kind, place, labels, body⟩ => do
    let name := (← label? ⟨kind, place, labels, body⟩).getD ""
    allowSettings ["attributes", "var", "base", "record", "abstract"] body
    let attributes ← attributesOf body
    let varName ← textSetting body "var"
    let base ← nameSetting body "base"
    let isRecord ← flagSetting body "record"
    let isAbstract ← flagSetting body "abstract"
    if name = "" ∧ varName = "" ∧ body.blocks.isEmpty then refuse place .emptyAnonymous
    else
      let members ← match body with
        | ⟨_, _, blocks⟩ => readMembers name blocks
      return { name, attributes, isAnonymous := name = "", varName, base, isRecord, isAbstract,
               members }

def readMembers (structName : String) : List Block → Reading (List Member)
  | [] => .ok []
  | b :: rest => do
    let m ← match b.kind with
      | "field" => Member.field <$> readField b
      | "struct" => Member.struct <$> readStruct b
      | "enum" => Member.enum <$> readEnum b
      | "oneof" => Member.oneof <$> readOneof b
      | kind => refuse b.place (.blockInside kind "struct" structName)
    return m :: (← readMembers structName rest)

end

mutual

def readNode : Block → Reading Node
  | ⟨kind, place, labels, body⟩ =>
    let b : Block := ⟨kind, place, labels, body⟩
    match kind with
    | "struct" => Node.struct <$> readStruct b
    | "enum" => Node.enum <$> readEnum b
    | "oneof" => Node.oneof <$> readOneof b
    | "service" => Node.service <$> readService b
    | "namespace" => do
      let name ← label b
      allowSettings [] body
      match body with
      | ⟨_, _, blocks⟩ => return .space name (← readNodes blocks)
    | kind => refuse place (.blockAtTop kind)

def readNodes : List Block → Reading (List Node)
  | [] => .ok []
  | b :: rest => do
    let n ← readNode b
    return n :: (← readNodes rest)

end

def key : String := "hcl"

def moduleOf (b : Body) : Reading Module := do
  allowSettings ["namespace"] b
  let namespaces ← match b.find? "namespace" with
    | none => pure []
    | some e => textsOf e
  return { source := key, namespaces, nodes := ← readNodes b.blocks }

def readModule (bytes : List UInt8) : Except SyntaxFault Module :=
  let result := match parse bytes with
    | .error place => refuse place .malformed
    | .ok body => moduleOf body
  match result with
  | .ok m => .ok m
  | .error ⟨place, cause⟩ =>
    .error {
      language := key
      line := place.line
      column := place.column
      refusal := match cause with
        | .malformed => .malformed ""
        | cause => .meaningless cause.message }

end Schemata.Hcl
