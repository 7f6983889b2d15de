import Schemata.Kind

/-!
Schemas: type expressions, the declarations that hold them, and modules. The types also hold
ill-shaped schemas (a primitive of container kind, a field without a type), because front ends
and callers can produce them; being well shaped is a property, checked elsewhere.
-/

namespace Schemata

/-- A named annotation on a declaration. Lists of them are ordered and may repeat a name. -/
structure Attribute where
  name : String
  value : String := ""
deriving DecidableEq, Repr

/-- The value of the first attribute of that name. -/
def attribute? (attrs : List Attribute) (name : String) : Option String :=
  (attrs.find? fun a => a.name == name).map (·.value)

mutual

/-- A type as a declaration writes it. `missing` stands where no type was given. -/
inductive TypeExpr where
  | missing
  /-- A scalar; `spelling` keeps the source text of one that has no kind. -/
  | primitive (kind : Kind) (spelling : String)
  /-- A declaration, by name only. -/
  | reference (name : String) (kind : Kind)
  | indirection (kind : Kind) (elem : TypeExpr)
  /-- A container over its arguments; `len` is the length of an array, zero when open. -/
  | generic (kind : Kind) (args : List TypeExpr) (len : Int64)
  | inline (body : Struct)
  /-- An inline struct without a body. -/
  | emptyInline

structure Struct where
  name : String := ""
  namespaces : List String := []
  attributes : List Attribute := []
  /-- Set when the struct has no declared name. -/
  isAnonymous : Bool := false
  /-- Non-empty when the struct also occupies a field slot of its parent. -/
  varName : String := ""
  isRecord : Bool := false
  isAbstract : Bool := false
  /-- The name of the single base, empty when there is none. -/
  base : String := ""
  members : List Member := []

inductive Member where
  | field (f : Field)
  | oneof (o : Oneof)
  | enum (e : Enum)
  | struct (s : Struct)

structure Field where
  name : String
  type : TypeExpr
  attributes : List Attribute := []

structure Oneof where
  name : String
  attributes : List Attribute := []
  alternatives : List Alternative := []

structure Alternative where
  name : String
  type : TypeExpr
  attributes : List Attribute := []

structure Enum where
  name : String
  namespaces : List String := []
  attributes : List Attribute := []
  isScoped : Bool := false
  /-- The representation type, empty for the default. -/
  underlying : String := ""
  values : List EnumValue := []

structure EnumValue where
  name : String
  number : Int64
  attributes : List Attribute := []
  /-- The type of the data the value carries, `missing` for a plain value. -/
  payload : TypeExpr

end

structure Method where
  name : String
  request : String := ""
  response : String := ""
  attributes : List Attribute := []
deriving DecidableEq, Repr

structure Service where
  name : String
  attributes : List Attribute := []
  methods : List Method := []
deriving DecidableEq, Repr

inductive Node where
  | struct (s : Struct)
  | enum (e : Enum)
  | oneof (o : Oneof)
  | space (name : String) (nodes : List Node)
  | service (s : Service)

structure Module where
  /-- The key of the notation the module was read from. -/
  source : String := ""
  namespaces : List String := []
  nodes : List Node := []

instance : Inhabited TypeExpr := ⟨.missing⟩
instance : Inhabited Struct := ⟨{}⟩
instance : Inhabited Member := ⟨.struct {}⟩
instance : Inhabited Field := ⟨⟨"", .missing, []⟩⟩
instance : Inhabited Oneof := ⟨⟨"", [], []⟩⟩
instance : Inhabited Enum := ⟨{ name := "" }⟩
instance : Inhabited Node := ⟨.struct {}⟩
instance : Inhabited Module := ⟨{}⟩

namespace TypeExpr

def prim (k : Kind) : TypeExpr := .primitive k ""

/-- A scalar that only its source text describes. -/
def opaqueText (spelling : String) : TypeExpr := .primitive .unknown spelling

/-- A plain reference to a declaration. -/
def ref (name : String) : TypeExpr := .reference name .structRef

def container (k : Kind) (args : List TypeExpr) : TypeExpr := .generic k args 0

/-- The kind a type counts as; a reference of unknown kind counts as one to a struct. -/
def kind : TypeExpr → Kind
  | .missing => .unknown
  | .primitive k _ => k
  | .reference _ k => if k = .unknown then .structRef else k
  | .indirection k _ => k
  | .generic k _ _ => k
  | .inline _ => .structRef
  | .emptyInline => .structRef

def isMissing : TypeExpr → Bool
  | .missing => true
  | _ => false

/-- The types directly below, the body of an inline struct apart. -/
def children : TypeExpr → List TypeExpr
  | .indirection _ .missing => []
  | .indirection _ elem => [elem]
  | .generic _ args _ => args
  | _ => []

/-- The type below all leading indirections; one without an element ends the search. -/
def unwrap : TypeExpr → TypeExpr
  | .indirection k .missing => .indirection k .missing
  | .indirection _ elem => elem.unwrap
  | t => t

end TypeExpr

/-- A struct is named when it carries a name it may be declared under. -/
def Struct.isNamed (s : Struct) : Bool :=
  !s.isAnonymous && s.name != ""

def Struct.fields (s : Struct) : List Field :=
  s.members.filterMap fun
    | .field f => some f
    | _ => none

def Enum.hasPayloads (e : Enum) : Bool :=
  e.values.any fun v => !v.payload.isMissing

def Member.name : Member → String
  | .field f => f.name
  | .oneof o => o.name
  | .enum e => e.name
  | .struct s => s.name

/-- The name under which a member occupies a slot of its struct, empty when it takes none. -/
def Member.slot : Member → String
  | .field f => f.name
  | .oneof o => o.name
  | .struct s => s.varName
  | .enum _ => ""

def Node.name : Node → String
  | .struct s => s.name
  | .enum e => e.name
  | .oneof o => o.name
  | .space name _ => name
  | .service s => s.name

end Schemata
