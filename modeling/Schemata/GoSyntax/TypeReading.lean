import Schemata.GoSyntax.Constant
import Schemata.GoSyntax.Tag

/-!
Go types as schema types. A declared name stands for itself when it names a struct, an interface
or an enum, and otherwise for the type it was declared as. While a name is being expanded it is
marked, so that a type that refers to itself is found and refused.
-/

namespace Schemata.GoSyntax

open Text

/-- Why source that follows the grammar has no schema. -/
inductive Cause where
  | interfaceField
  | unsupportedType (form : String)
  | arrayLength
  | selfReference (name : String)
  | constant (name : String)
  | tagLiteral
  | tag (bytes : List UInt8)
  /-- Types nest deeper than was allowed for. -/
  | tooDeep
deriving DecidableEq, Repr

def Cause.message : Cause → String
  | .interfaceField => "interface types with methods cannot be field types"
  | .unsupportedType form => "unsupported type expression " ++ form
  | .arrayLength => "array length must be a positive constant"
  | .selfReference name => "type " ++ name ++ " refers to itself"
  | .constant name => "cannot evaluate constant " ++ name
  | .tagLiteral => "malformed struct tag"
  | .tag bytes => "malformed struct tag " ++ String.ofList (quoteBytes bytes)
  | .tooDeep => "types nest too deep"

structure Fault where
  place : Place
  cause : Cause
deriving DecidableEq, Repr

/-- A constant of a declared type, with the value of `iota` where it stands. -/
structure Constant where
  name : String
  value : Expr
  iota : Int64

structure Scope where
  /-- The types, the latest of a name first. -/
  types : List (String × TypeSpec) := []
  /-- The constants, each with the name of its type. -/
  constants : List (String × Constant) := []
  /-- The interfaces that only the types of this file can implement. -/
  sealedNames : List String := []
  /-- The types that implement one of them, the latest of a name first, each with the name of the
  interface. -/
  markers : List (String × String) := []

namespace Scope

def type? (s : Scope) (name : String) : Option TypeSpec := s.types.lookup name

def constantsOf (s : Scope) (type : String) : List Constant :=
  (s.constants.filter fun (t, _) => t == type).map (·.2)

/-- Whether a struct only carries the data of a value of an enum. -/
def isWrapper (s : Scope) (name : String) : Bool :=
  match s.markers.lookup name with
  | some interface => s.sealedNames.contains interface
  | none => false

end Scope

def builtins : List (String × Kind) :=
  [("bool", .bool), ("int8", .int8), ("uint8", .uint8), ("byte", .uint8), ("int16", .int16),
    ("uint16", .uint16), ("int32", .int32), ("uint32", .uint32), ("int64", .int64),
    ("uint64", .uint64), ("int", .int64), ("uint", .uint64), ("float32", .float32),
    ("float64", .float64), ("string", .string), ("rune", .char)]

def isBuiltin (name : String) : Bool := (builtins.lookup name).isSome

def knownTypes : List (String × Kind) :=
  [("time.Time", .datetime), ("time.Duration", .duration), ("uuid.UUID", .uuid),
    ("url.URL", .url), ("decimal.Decimal", .decimal)]

def Expr.form : Expr → String
  | .bad _ => "*ast.BadExpr"
  | .identifier _ => "*ast.Ident"
  | .literal _ => "*ast.BasicLit"
  | .paren .. => "*ast.ParenExpr"
  | .selector .. => "*ast.SelectorExpr"
  | .index _ [_] => "*ast.IndexExpr"
  | .index .. => "*ast.IndexListExpr"
  | .slice .. => "*ast.SliceExpr"
  | .assertion .. => "*ast.TypeAssertExpr"
  | .call .. => "*ast.CallExpr"
  | .star .. => "*ast.StarExpr"
  | .unary .. => "*ast.UnaryExpr"
  | .binary .. => "*ast.BinaryExpr"
  | .pair .. => "*ast.KeyValueExpr"
  | .composite .. => "*ast.CompositeLit"
  | .function .. => "*ast.FuncLit"
  | .ellipsis .. => "*ast.Ellipsis"
  | .array .. => "*ast.ArrayType"
  | .struct .. => "*ast.StructType"
  | .functionType .. => "*ast.FuncType"
  | .interface .. => "*ast.InterfaceType"
  | .map .. => "*ast.MapType"
  | .channel .. => "*ast.ChanType"

/-- The name of a type, over pointers; empty when it has none. -/
def Expr.typeName : Expr → String
  | .identifier id => id.name
  | .selector (.identifier x) name => x.name ++ "." ++ name.name
  | .star _ x => x.typeName
  | _ => ""

/-! ### Reading with marks -/

/-- The names being expanded, the innermost first. -/
abbrev Marks := List String

/-- Reading can fail, and leaves the marks as they are then. -/
abbrev Read := ExceptT Fault (StateM Marks)

def refuse {α : Type} (place : Place) (cause : Cause) : Read α := throw ⟨place, cause⟩

/-- Reads with a name marked, and takes the mark off whether reading succeeds or not. -/
def marking {α : Type} (name : String) (r : Read α) : Read α :=
  ExceptT.mk do
    modify (name :: ·)
    let result ← r.run
    modify (·.erase name)
    return result

/-- The name of a field: that of its json tag when there is one. -/
def fieldName (name : String) (attrs : List Attribute) : String :=
  match attribute? attrs "json" with
  | some v =>
    let tagged := String.ofList (v.toList.takeWhile (· ≠ ','))
    if tagged = "" ∨ tagged = "-" then name else tagged
  | none => name

def tagAttributes (tag : Option Literal) : Read (List Attribute) :=
  match tag with
  | none => return []
  | some l =>
    match unquoteBytes? (Utf8.encode l.text.toList) with
    | none => refuse l.place .tagLiteral
    | some tag =>
      match Tag.parse tag with
      | none => refuse l.place (.tag tag)
      | some entries => return entries.map Tag.Entry.toAttribute

/-- The struct that fields make. A leading embedded type is the base; `read` reads the types of
the fields. -/
def readFields (read : Expr → Read TypeExpr) (s : Struct) : List FieldGroup → Read Struct
  | [] => return s
  | .mk names type tag _ _ :: rest => do
    let attrs ← tagAttributes tag
    match names with
    | [] =>
      let embedded := type.typeName
      if s.base = "" ∧ embedded ≠ "" ∧ s.members.isEmpty then
        readFields read { s with base := embedded } rest
      else
        let t ← read type
        let member := Member.field ⟨fieldName embedded attrs, t, attrs⟩
        readFields read { s with members := s.members ++ [member] } rest
    | names =>
      let members ← (names.filter (·.name ≠ "_")).mapM fun id => do
        let t ← read type
        return Member.field ⟨fieldName id.name attrs, t, attrs⟩
      readFields read { s with members := s.members ++ members } rest

/-- Whether a name that was declared as the given type stands for itself. -/
def standsForItself (scope : Scope) (name : String) (spec : TypeSpec) : Bool :=
  match spec.type with
  | .struct .. | .interface .. => true
  | .identifier id =>
    isBuiltin id.name && !(scope.constantsOf name).isEmpty && !spec.isAlias
  | _ => false

def isEmptyStruct : Expr → Bool
  | .struct _ _ fields => fieldCount fields == 0
  | _ => false

def isByte : Expr → Bool
  | .identifier id => id.name == "byte" || id.name == "uint8"
  | _ => false

/-- The schema type of an expression. The fuel bounds how deep types nest, over the declarations
they go through. -/
def typeOf (scope : Scope) : Nat → Expr → Read TypeExpr
  | 0, e => refuse e.place .tooDeep
  | fuel + 1, e =>
    match e with
    | .identifier id =>
      match builtins.lookup id.name with
      | some k => return .prim k
      | none =>
        if id.name = "any" then return .opaqueText "any"
        else match scope.type? id.name with
          | none => return .ref id.name
          | some spec => do
            if standsForItself scope id.name spec then return .ref id.name
            else if (← get).contains id.name then refuse id.place (.selfReference id.name)
            else marking id.name (typeOf scope fuel spec.type)
    | .selector .. =>
      match knownTypes.lookup e.typeName with
      | some k => return .prim k
      | none => return .opaqueText e.typeName
    | .star _ x => do return .indirection .pointer (← typeOf scope fuel x)
    | .paren _ x => typeOf scope fuel x
    | .array _ none elem => do
      if isByte elem then return .prim .bytes
      else return .container .list [← typeOf scope fuel elem]
    | .array _ (some length) elem => do
      match length.value? 0 with
      | none => refuse length.place .arrayLength
      | some n =>
        if n ≤ 0 then refuse length.place .arrayLength
        else return .generic .array [← typeOf scope fuel elem] n
    | .map _ key value => do
      let k ← typeOf scope fuel key
      if isEmptyStruct value then return .container .set [k]
      else return .container .map [k, ← typeOf scope fuel value]
    | .struct _ _ fields => do
      return .inline (← readFields (typeOf scope fuel) { isAnonymous := true } fields)
    | .interface place _ elements => do
      if fieldCount elements = 0 then return .opaqueText "any"
      else refuse place .interfaceField
    | e => refuse e.place (.unsupportedType e.form)

mutual

def Expr.depth : Expr → Nat
  | .star _ x | .paren _ x => x.depth + 1
  | .array _ _ elem => elem.depth + 1
  | .map _ key value => max key.depth value.depth + 1
  | .struct _ _ fields => fieldsDepth fields + 1
  | _ => 1

def fieldsDepth : List FieldGroup → Nat
  | [] => 0
  | .mk _ type _ _ _ :: rest => max type.depth (fieldsDepth rest)

end

/-- Enough fuel for any type: every declaration is gone through at most once on the way down. -/
def Scope.fuel (s : Scope) : Nat :=
  (s.types.map fun (_, spec) => spec.type.depth).foldr (· + ·) 0

def readType (scope : Scope) (e : Expr) : Read TypeExpr :=
  typeOf scope (e.depth + scope.fuel) e

end Schemata.GoSyntax
