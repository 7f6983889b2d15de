import Schemata.Data.Tree
import Schemata.Document.Basic

/-!
Documents as trees, the common ground of the data formats.
-/

namespace Schemata.Document

open Data

inductive Record where
  | document
  | item
  | attribute
  | value
  | alternative
  | method
  | typeForm
deriving DecidableEq, Repr

/-- A list of records whose entries may be missing. -/
def Record.loose (r : Record) : Shape Record := .list (.optional (.record r))

/-- The fields of a record in the order they are written. -/
def Record.fields : Record → List (String × Shape Record)
  | .document =>
    [("version", .text), ("source", .text), ("namespaces", .list .text), ("items", item.loose)]
  | .item =>
    [("kind", .text), ("name", .text), ("namespaces", .list .text),
      ("attributes", .list (.record .attribute)), ("anonymous", .flag), ("var_name", .text),
      ("record", .flag), ("abstract", .flag), ("base", .text), ("members", item.loose),
      ("type", .optional (.record .typeForm)), ("values", value.loose), ("scoped", .flag),
      ("underlying", .text), ("alternatives", alternative.loose), ("methods", method.loose),
      ("items", item.loose)]
  | .attribute => [("name", .text), ("value", .text)]
  | .value =>
    [("name", .text), ("number", .number), ("attributes", .list (.record .attribute)),
      ("payload", .optional (.record .typeForm))]
  | .alternative =>
    [("name", .text), ("type", .optional (.record .typeForm)),
      ("attributes", .list (.record .attribute))]
  | .method =>
    [("name", .text), ("request", .text), ("response", .text),
      ("attributes", .list (.record .attribute))]
  | .typeForm =>
    [("form", .text), ("kind", .text), ("name", .text), ("spelling", .text),
      ("elem", .optional (.record .typeForm)), ("args", typeForm.loose), ("len", .number),
      ("struct", .optional (.record .item))]

/-! ### Trees as documents

A record is read by going through its fields, so a field given twice holds what was given last.
-/

def attributeOf (fields : List (String × Tree)) : Attribute :=
  fields.foldl (fun a field => match field with
    | ("name", t) => { a with name := t.asText }
    | ("value", t) => { a with value := t.asText }
    | _ => a) ⟨"", ""⟩

def attributesOf (t : Tree) : List Attribute :=
  t.entries.map fun
    | .record fields => attributeOf fields
    | _ => ⟨"", ""⟩

def methodOf (fields : List (String × Tree)) : Method :=
  fields.foldl (fun m field => match field with
    | ("name", t) => { m with name := t.asText }
    | ("request", t) => { m with request := t.asText }
    | ("response", t) => { m with response := t.asText }
    | ("attributes", t) => { m with attributes := attributesOf t }
    | _ => m) { name := "" }

def methodsOf (t : Tree) : List (Option Method) :=
  t.entries.map fun
    | .record fields => some (methodOf fields)
    | _ => none

mutual

def item? : Tree → Option Item
  | .record fields => some (itemWith {} fields)
  | _ => none

def itemWith (it : Item) : List (String × Tree) → Item
  | [] => it
  | ("kind", t) :: rest => itemWith { it with kind := t.asText } rest
  | ("name", t) :: rest => itemWith { it with name := t.asText } rest
  | ("namespaces", t) :: rest => itemWith { it with namespaces := t.asTexts } rest
  | ("attributes", t) :: rest => itemWith { it with attributes := attributesOf t } rest
  | ("anonymous", t) :: rest => itemWith { it with anonymous := t.asFlag } rest
  | ("var_name", t) :: rest => itemWith { it with varName := t.asText } rest
  | ("record", t) :: rest => itemWith { it with record := t.asFlag } rest
  | ("abstract", t) :: rest => itemWith { it with abstract := t.asFlag } rest
  | ("base", t) :: rest => itemWith { it with base := t.asText } rest
  | ("members", t) :: rest =>
    let members := itemsOf t
    itemWith { it with members } rest
  | ("type", t) :: rest =>
    let type := form? t
    itemWith { it with type } rest
  | ("values", t) :: rest =>
    let values := valuesOf t
    itemWith { it with values } rest
  | ("scoped", t) :: rest => itemWith { it with isScoped := t.asFlag } rest
  | ("underlying", t) :: rest => itemWith { it with underlying := t.asText } rest
  | ("alternatives", t) :: rest =>
    let alternatives := alternativesOf t
    itemWith { it with alternatives } rest
  | ("methods", t) :: rest => itemWith { it with methods := methodsOf t } rest
  | ("items", t) :: rest =>
    let inner := itemsOf t
    itemWith { it with items := inner } rest
  | _ :: rest => itemWith it rest

def itemsOf : Tree → List (Option Item)
  | .list ts => itemsIn ts
  | _ => []

def itemsIn : List Tree → List (Option Item)
  | [] => []
  | t :: ts => item? t :: itemsIn ts

def valuesOf : Tree → List (Option Value)
  | .list ts => valuesIn ts
  | _ => []

def valuesIn : List Tree → List (Option Value)
  | [] => []
  | .record fields :: ts => some (valueWith {} fields) :: valuesIn ts
  | _ :: ts => none :: valuesIn ts

def valueWith (v : Value) : List (String × Tree) → Value
  | [] => v
  | ("name", t) :: rest => valueWith { v with name := t.asText } rest
  | ("number", t) :: rest => valueWith { v with number := t.asNumber } rest
  | ("attributes", t) :: rest => valueWith { v with attributes := attributesOf t } rest
  | ("payload", t) :: rest =>
    let payload := form? t
    valueWith { v with payload } rest
  | _ :: rest => valueWith v rest

def alternativesOf : Tree → List (Option Alternative)
  | .list ts => alternativesIn ts
  | _ => []

def alternativesIn : List Tree → List (Option Alternative)
  | [] => []
  | .record fields :: ts => some (alternativeWith {} fields) :: alternativesIn ts
  | _ :: ts => none :: alternativesIn ts

def alternativeWith (a : Alternative) : List (String × Tree) → Alternative
  | [] => a
  | ("name", t) :: rest => alternativeWith { a with name := t.asText } rest
  | ("type", t) :: rest =>
    let type := form? t
    alternativeWith { a with type } rest
  | ("attributes", t) :: rest => alternativeWith { a with attributes := attributesOf t } rest
  | _ :: rest => alternativeWith a rest

def form? : Tree → Option TypeForm
  | .record fields => some (formWith {} fields)
  | _ => none

def formWith (f : TypeForm) : List (String × Tree) → TypeForm
  | [] => f
  | ("form", t) :: rest => formWith { f with form := t.asText } rest
  | ("kind", t) :: rest => formWith { f with kind := t.asText } rest
  | ("name", t) :: rest => formWith { f with name := t.asText } rest
  | ("spelling", t) :: rest => formWith { f with spelling := t.asText } rest
  | ("elem", t) :: rest =>
    let elem := form? t
    formWith { f with elem } rest
  | ("args", t) :: rest =>
    let args := formsOf t
    formWith { f with args } rest
  | ("len", t) :: rest => formWith { f with len := t.asNumber } rest
  | ("struct", t) :: rest =>
    let struct := item? t
    formWith { f with struct } rest
  | _ :: rest => formWith f rest

def formsOf : Tree → List (Option TypeForm)
  | .list ts => formsIn ts
  | _ => []

def formsIn : List Tree → List (Option TypeForm)
  | [] => []
  | t :: ts => form? t :: formsIn ts

end

/-- The document a tree holds; a tree that is no record is the empty document. -/
def ofTree (t : Tree) : Document where
  version := (t.field "version").asText
  source := (t.field "source").asText
  namespaces := (t.field "namespaces").asTexts
  items := itemsOf (t.field "items")

/-! ### Documents as trees

Fields that hold nothing are left out, apart from the ones every record of a kind shows.
-/

def textField (name s : String) : List (String × Tree) :=
  if s.isEmpty then [] else [(name, .text s)]

def flagField (name : String) (b : Bool) : List (String × Tree) :=
  if b then [(name, .flag true)] else []

def listField (name : String) (entries : List Tree) : List (String × Tree) :=
  if entries.isEmpty then [] else [(name, .list entries)]

def treeOfAttribute (a : Attribute) : Tree :=
  .record (("name", .text a.name) :: textField "value" a.value)

def attributesField (attrs : List Attribute) : List (String × Tree) :=
  listField "attributes" (attrs.map treeOfAttribute)

def treeOfMethod (m : Method) : Tree :=
  .record (("name", .text m.name) :: textField "request" m.request ++
    textField "response" m.response ++ attributesField m.attributes)

mutual

def treeOfItem : Item → Tree
  | ⟨kind, name, namespaces, attributes, anonymous, varName, isRecord, abstract, base, members,
      type, values, isScoped, underlying, alternatives, methods, items⟩ =>
    .record (("kind", .text kind) :: textField "name" name ++
      listField "namespaces" (namespaces.map .text) ++ attributesField attributes ++
      flagField "anonymous" anonymous ++ textField "var_name" varName ++
      flagField "record" isRecord ++ flagField "abstract" abstract ++ textField "base" base ++
      listField "members" (treesOfItems members) ++ formField "type" type ++
      listField "values" (treesOfValues values) ++ flagField "scoped" isScoped ++
      textField "underlying" underlying ++
      listField "alternatives" (treesOfAlternatives alternatives) ++
      listField "methods" (methods.map fun m => (m.map treeOfMethod).getD .none) ++
      listField "items" (treesOfItems items))

def treesOfItems : List (Option Item) → List Tree
  | [] => []
  | none :: its => .none :: treesOfItems its
  | some it :: its => treeOfItem it :: treesOfItems its

def treesOfValues : List (Option Value) → List Tree
  | [] => []
  | none :: vs => .none :: treesOfValues vs
  | some ⟨name, n, attributes, payload⟩ :: vs =>
    .record (("name", .text name) :: ("number", .number n) :: attributesField attributes ++
      formField "payload" payload) :: treesOfValues vs

def treesOfAlternatives : List (Option Alternative) → List Tree
  | [] => []
  | none :: alts => .none :: treesOfAlternatives alts
  | some ⟨name, type, attributes⟩ :: alts =>
    .record (("name", .text name) :: formField "type" type ++ attributesField attributes) ::
      treesOfAlternatives alts

def treeOfForm : TypeForm → Tree
  | ⟨form, kind, name, spelling, elem, args, len, struct⟩ =>
    .record (("form", .text form) :: textField "kind" kind ++ textField "name" name ++
      textField "spelling" spelling ++ formField "elem" elem ++ listField "args" (treesOfForms args) ++
      (if len = 0 then [] else [("len", .number len)]) ++ structField struct)

def formField (name : String) : Option TypeForm → List (String × Tree)
  | none => []
  | some f => [(name, treeOfForm f)]

def structField : Option Item → List (String × Tree)
  | none => []
  | some it => [("struct", treeOfItem it)]

def treesOfForms : List (Option TypeForm) → List Tree
  | [] => []
  | none :: fs => .none :: treesOfForms fs
  | some f :: fs => treeOfForm f :: treesOfForms fs

end

def toTree (d : Document) : Tree :=
  .record (("version", .text d.version) :: textField "source" d.source ++
    listField "namespaces" (d.namespaces.map .text) ++ [("items", .list (treesOfItems d.items))])


end Schemata.Document
