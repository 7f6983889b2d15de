import Schemata.Document.Basic
import Schemata.Text.Quoted

/-!
Documents as modules. A document is a module when its version is read here and every item and type
form stands where its kind word allows.
-/

namespace Schemata.Document

open Text

/-- Why a document is no module. Paths name the place inside the document. -/
inductive Fault where
  | badVersion (text : String) (fault : VersionFault)
  | unsupportedVersion (v : Version)
  /-- An entry of a list is null; `what` says what it should have been. -/
  | emptyEntry (path what : String)
  | misplacedItem (path kind : String)
  | misplacedMember (path kind : String)
  | missingType (path : String)
  | missingKind (path : String)
  | unknownKind (path name : String)
  | notPrimitive (path : String) (kind : Kind)
  | notIndirection (path : String) (kind : Kind)
  | notContainer (path : String) (kind : Kind)
  | namelessReference (path : String)
  | unknownForm (path form : String)
deriving DecidableEq, Repr

namespace Fault

def message : Fault → String
  | .badVersion text .malformed => "invalid document version " ++ quote text
  | .badVersion text (.tooLarge digits) =>
    "invalid document version " ++ quote text ++
      ": error parsing version segment: strconv.ParseUint: parsing " ++ quote digits
  | .unsupportedVersion v => "unsupported document version " ++ v.text
  | .emptyEntry path what => path ++ ": empty " ++ what
  | .misplacedItem path kind => path ++ ": " ++ quote kind ++ " is not a top-level item kind"
  | .misplacedMember path kind => path ++ ": " ++ quote kind ++ " is not a struct member kind"
  | .missingType path => path ++ ": missing type"
  | .missingKind path => path ++ ": missing kind"
  | .unknownKind path name => path ++ ": unknown kind " ++ quote name
  | .notPrimitive path kind => path ++ ": " ++ kind.name ++ " is not a primitive kind"
  | .notIndirection path kind => path ++ ": " ++ kind.name ++ " is not an indirection kind"
  | .notContainer path kind => path ++ ": " ++ kind.name ++ " is not a container kind"
  | .namelessReference path => path ++ ": reference without a name"
  | .unknownForm path form => path ++ ": unknown type form " ++ quote form

/-- Advice, which only an unsupported version has. -/
def hint : Fault → String
  | .unsupportedVersion _ => "this build reads versions >= 1.0.0, < 2.0.0 (current 1.0.0)"
  | _ => ""

end Fault

/-- An empty version stands for the current one. -/
def checkVersion (version : String) : Except Fault Unit :=
  let text := if version.isEmpty then Version.current else version
  match Version.parse text with
  | .error fault => .error (.badVersion text fault)
  | .ok v => if v.isSupported then .ok () else .error (.unsupportedVersion v)

def entryPath (path : String) (i : Nat) : String := s!"{path}[{i}]"

def kindOfName (path name : String) : Except Fault Kind :=
  if name.isEmpty then .error (.missingKind path)
  else match Kind.ofName? name with
    | some k => .ok k
    | none => .error (.unknownKind path name)

/-- The kind of a reference; no word means a struct. -/
def referenceKind (path name : String) : Except Fault Kind :=
  if name.isEmpty then .ok .structRef else kindOfName path name

mutual

def typeOfForm (path : String) : TypeForm → Except Fault TypeExpr
  | ⟨form, kind, name, spelling, elem, args, len, struct⟩ =>
    match form with
    | "primitive" => do
      let k ← kindOfName path kind
      if !k.isPrimitive && k != .unknown then throw (.notPrimitive path k)
      return .primitive k spelling
    | "ref" => do
      if name.isEmpty then throw (.namelessReference path)
      return .reference name (← referenceKind path kind)
    | "indirection" => do
      let k ← kindOfName path kind
      if !k.isIndirection then throw (.notIndirection path k)
      return .indirection k (← typeOfForm? (path ++ ".elem") elem)
    | "generic" => do
      let k ← kindOfName path kind
      if !k.isContainer || k == .optional then throw (.notContainer path k)
      return .generic k (← typesOfForms (path ++ ".args") 0 args) len
    | "inline" => inlineOfItem? (path ++ ".struct") struct
    | _ => .error (.unknownForm path form)

def typeOfForm? (path : String) : Option TypeForm → Except Fault TypeExpr
  | none => .error (.missingType path)
  | some t => typeOfForm path t

/-- `i` is the index of the first entry. -/
def typesOfForms (path : String) (i : Nat) : List (Option TypeForm) → Except Fault (List TypeExpr)
  | [] => .ok []
  | t :: ts => do
    let t ← typeOfForm? (entryPath path i) t
    return t :: (← typesOfForms path (i + 1) ts)

/-- An inline struct, whatever the kind word of its item. -/
def inlineOfItem? (path : String) : Option Item → Except Fault TypeExpr
  | none => .ok .emptyInline
  | some item => do return .inline (← structOfItem path item)

def structOfItem (path : String) : Item → Except Fault Struct
  | ⟨_, name, namespaces, attributes, anonymous, varName, record, abstract, base, members,
      _, _, _, _, _, _, _⟩ => do
    let members ← membersOfItems (path ++ ".members") 0 members
    return ⟨name, namespaces, attributes, anonymous, varName, record, abstract, base, members⟩

def membersOfItems (path : String) (i : Nat) : List (Option Item) → Except Fault (List Member)
  | [] => .ok []
  | m :: ms => do
    let m ← memberOfItem (entryPath path i) m
    return m :: (← membersOfItems path (i + 1) ms)

def memberOfItem (path : String) : Option Item → Except Fault Member
  | none => .error (.emptyEntry path "member")
  | some ⟨kind, name, namespaces, attributes, anonymous, varName, record, abstract, base, members,
      type, values, isScoped, underlying, alternatives, _, _⟩ =>
    match kind with
    | "field" => do return .field ⟨name, ← typeOfForm? (path ++ ".type") type, attributes⟩
    | "struct" => do
      let members ← membersOfItems (path ++ ".members") 0 members
      return .struct
        ⟨name, namespaces, attributes, anonymous, varName, record, abstract, base, members⟩
    | "enum" => do
      let values ← valuesOfEntries (path ++ ".values") 0 values
      return .enum ⟨name, namespaces, attributes, isScoped, underlying, values⟩
    | "oneof" => do
      let alternatives ← alternativesOfEntries (path ++ ".alternatives") 0 alternatives
      return .oneof ⟨name, attributes, alternatives⟩
    | _ => .error (.misplacedMember path kind)

def valuesOfEntries (path : String) (i : Nat) :
    List (Option Value) → Except Fault (List EnumValue)
  | [] => .ok []
  | none :: _ => .error (.emptyEntry (entryPath path i) "value")
  | some ⟨name, number, attributes, payload⟩ :: vs => do
    let payload ← optionalType (entryPath path i ++ ".payload") payload
    return ⟨name, number, attributes, payload⟩ :: (← valuesOfEntries path (i + 1) vs)

def alternativesOfEntries (path : String) (i : Nat) :
    List (Option Alternative) → Except Fault (List Schemata.Alternative)
  | [] => .ok []
  | none :: _ => .error (.emptyEntry (entryPath path i) "alternative")
  | some ⟨name, type, attributes⟩ :: alts => do
    let type ← optionalType (entryPath path i ++ ".type") type
    return ⟨name, type, attributes⟩ :: (← alternativesOfEntries path (i + 1) alts)

def optionalType (path : String) : Option TypeForm → Except Fault TypeExpr
  | none => .ok .missing
  | some t => typeOfForm path t

end

mutual

def nodesOfItems (path : String) (i : Nat) : List (Option Item) → Except Fault (List Node)
  | [] => .ok []
  | it :: its => do
    let node ← nodeOfItem (entryPath path i) it
    return node :: (← nodesOfItems path (i + 1) its)

def nodeOfItem (path : String) : Option Item → Except Fault Node
  | none => .error (.emptyEntry path "item")
  | some ⟨kind, name, namespaces, attributes, anonymous, varName, record, abstract, base, members,
      _, values, isScoped, underlying, alternatives, methods, items⟩ =>
    match kind with
    | "struct" => do
      let members ← membersOfItems (path ++ ".members") 0 members
      return .struct
        ⟨name, namespaces, attributes, anonymous, varName, record, abstract, base, members⟩
    | "enum" => do
      let values ← valuesOfEntries (path ++ ".values") 0 values
      return .enum ⟨name, namespaces, attributes, isScoped, underlying, values⟩
    | "oneof" => do
      let alternatives ← alternativesOfEntries (path ++ ".alternatives") 0 alternatives
      return .oneof ⟨name, attributes, alternatives⟩
    | "service" => .ok (.service ⟨name, attributes, methods.filterMap id⟩)
    | "namespace" => do return .space name (← nodesOfItems (path ++ ".items") 0 items)
    | _ => .error (.misplacedItem path kind)

end

def toModule (d : Document) : Except Fault Module := do
  checkVersion d.version
  let nodes ← nodesOfItems "items" 0 d.items
  return { source := d.source, namespaces := d.namespaces, nodes }

end Schemata.Document
