import Schemata.Schema.Path
import Schemata.Text.Quoted

/-!
Schemas as text: a compact form of types, and an indented listing of a module with one line to
each declaration, member, value and method.
-/

namespace Schemata

open Text

def showInt (n : Int64) : String := toString n.toInt

mutual

/-- A type in compact form, such as `map<string, list<Line>>`. -/
def TypeExpr.text : TypeExpr → String
  | .missing => "<nil>"
  | .primitive k spelling => if k = .unknown ∧ spelling ≠ "" then "?" ++ spelling else k.name
  | .reference name _ => name
  | .indirection k elem => k.name ++ "<" ++ elem.text ++ ">"
  | .generic k args len =>
    let length := if k = .array ∧ len > 0 then [showInt len] else []
    k.name ++ "<" ++ String.intercalate ", " (textOfTypes args ++ length) ++ ">"
  | .inline body => body.text
  | .emptyInline => "struct{}"

def textOfTypes : List TypeExpr → List String
  | [] => []
  | t :: ts => t.text :: textOfTypes ts

/-- A struct in compact form, with its fields only. -/
def Struct.text : Struct → String
  | ⟨name, _, _, isAnonymous, _, _, _, _, members⟩ =>
    (if !isAnonymous && name != "" then "struct " ++ name else "struct") ++
      r"{" ++ String.intercalate "; " (textOfFields members) ++ r"}"

def textOfFields : List Member → List String
  | [] => []
  | .field ⟨name, type, _⟩ :: ms => (name ++ ": " ++ type.text) :: textOfFields ms
  | _ :: ms => textOfFields ms

end

def showAttributes (attrs : List Attribute) : String :=
  if attrs.isEmpty then ""
  else " [" ++ String.intercalate " " (attrs.map fun a => a.name ++ "=" ++ quote a.value) ++ "]"

structure ShownLine where
  depth : Nat
  text : String
deriving DecidableEq, Repr

def ShownLine.render (l : ShownLine) : String :=
  "".pushn ' ' (2 * l.depth) ++ l.text ++ "\n"

variable (depth : Nat)

def Alternative.shown (a : Alternative) : ShownLine :=
  let type := if a.type.isMissing then "" else ": " ++ a.type.text
  ⟨depth, "alt " ++ a.name ++ type ++ showAttributes a.attributes⟩

def EnumValue.shown (v : EnumValue) : ShownLine :=
  let payload := if v.payload.isMissing then "" else " (" ++ v.payload.text ++ ")"
  ⟨depth, "value " ++ v.name ++ " = " ++ showInt v.number ++ payload ++ showAttributes v.attributes⟩

def Oneof.shown (o : Oneof) : List ShownLine :=
  ⟨depth, "oneof " ++ o.name ++ showAttributes o.attributes⟩ ::
    o.alternatives.map (·.shown (depth + 1))

def Enum.shown (e : Enum) : List ShownLine :=
  let marks := (if e.isScoped then " scoped" else "") ++
    (if e.underlying = "" then "" else " : " ++ e.underlying)
  ⟨depth, "enum " ++ e.name ++ marks ++ showAttributes e.attributes⟩ ::
    e.values.map (·.shown (depth + 1))

def Struct.headline (s : Struct) : String :=
  let flags := (if s.varName = "" then [] else ["var=" ++ s.varName]) ++
    (if s.base = "" then [] else ["base=" ++ s.base]) ++
    (if s.isRecord then ["record"] else []) ++ (if s.isAbstract then ["abstract"] else [])
  "struct " ++ (if s.isAnonymous then "<anonymous>" else s.name) ++
    (if flags.isEmpty then "" else " (" ++ String.intercalate " " flags ++ ")") ++
    showAttributes s.attributes

def Field.shown (f : Field) : ShownLine :=
  ⟨depth, "field " ++ f.name ++ ": " ++ f.type.text ++ showAttributes f.attributes⟩

mutual

def Struct.shown (depth : Nat) : Struct → List ShownLine
  | ⟨name, namespaces, attributes, isAnonymous, varName, isRecord, isAbstract, base, members⟩ =>
    ⟨depth, Struct.headline ⟨name, namespaces, attributes, isAnonymous, varName, isRecord,
      isAbstract, base, []⟩⟩ :: shownMembers (depth + 1) members

def shownMembers (depth : Nat) : List Member → List ShownLine
  | [] => []
  | .field f :: ms => f.shown depth :: shownMembers depth ms
  | .oneof o :: ms => o.shown depth ++ shownMembers depth ms
  | .enum e :: ms => e.shown depth ++ shownMembers depth ms
  | .struct s :: ms => s.shown depth ++ shownMembers depth ms

end

def Method.shown (m : Method) : ShownLine :=
  ⟨depth, "rpc " ++ m.name ++ "(" ++ m.request ++ ") -> " ++ m.response ++
    showAttributes m.attributes⟩

def shownNodes (depth : Nat) : List Node → List ShownLine
  | [] => []
  | .struct s :: rest => s.shown depth ++ shownNodes depth rest
  | .enum e :: rest => e.shown depth ++ shownNodes depth rest
  | .oneof o :: rest => o.shown depth ++ shownNodes depth rest
  | .space name inner :: rest =>
    ⟨depth, "namespace " ++ name⟩ :: shownNodes (depth + 1) inner ++ shownNodes depth rest
  | .service s :: rest =>
    ⟨depth, "service " ++ s.name ++ showAttributes s.attributes⟩ ::
      s.methods.map (·.shown (depth + 1)) ++ shownNodes depth rest

def Module.show (m : Module) : String :=
  let source := if m.source = "" then "" else " source=" ++ m.source
  let space := if m.namespaces.isEmpty then ""
    else " namespace=" ++ String.intercalate "." m.namespaces
  "module" ++ source ++ space ++ "\n" ++
    String.join ((shownNodes 1 m.nodes).map (·.render))

end Schemata
