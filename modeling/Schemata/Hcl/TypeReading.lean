import Schemata.Hcl.Evaluation
import Schemata.Schema.Basic
import Schemata.Text.Quoted

/-!
Types read from expressions: kind keywords, declared names, and calls that construct types.
-/

namespace Schemata.Hcl

open Text

/-- Why an expression or a block means nothing in a schema. -/
inductive Cause where
  /-- The text does not follow the block language. -/
  | malformed
  | needsArguments (name : String)
  | notAType
  | arity (name : String) (wanted given : Nat)
  | lengthNotPositive
  | unknownConstructor (name : String)
  | needsOneType (name : String)
  | notAFieldMap
  | notAValue (want : Scalar)
  | notConvertible (want : Scalar) (reason : String)
  | notWhole
  | blockAtTop (kind : String)
  | blockInside (kind outer name : String)
  | blockInLeaf (kind outer : String)
  | unknownSetting (name : String)
  | needsName (kind : String)
  | oneName (kind : String) (given : Nat)
  | fieldWithoutType (name : String)
  | emptyAnonymous
deriving DecidableEq, Repr

def Cause.message : Cause → String
  | .malformed => ""
  | .needsArguments name => name ++ " needs type arguments, e.g. " ++ name ++ "(...)"
  | .notAType => "invalid type expression"
  | .arity name wanted given =>
    name ++ " takes " ++ toString wanted ++ " argument(s), got " ++ toString given
  | .lengthNotPositive => "array length must be positive"
  | .unknownConstructor name => "unknown type constructor " ++ quote name
  | .needsOneType name => name ++ " needs at least one type"
  | .notAFieldMap => "object() takes a map of field types"
  | .notAValue want => "expected a " ++ want.name ++ " value"
  | .notConvertible want reason => "expected a " ++ want.name ++ " value: " ++ reason
  | .notWhole => "expected a whole number"
  | .blockAtTop kind => "unexpected " ++ quote kind ++ " block at top level"
  | .blockInside kind outer name =>
    "unexpected " ++ quote kind ++ " block in " ++ outer ++ " " ++ quote name
  | .blockInLeaf kind outer => "unexpected " ++ quote kind ++ " block in " ++ outer
  | .unknownSetting name => "unexpected attribute " ++ quote name
  | .needsName kind => kind ++ " block needs a name"
  | .oneName kind given => kind ++ " block takes one name, got " ++ toString given
  | .fieldWithoutType name => "field " ++ quote name ++ " has no type"
  | .emptyAnonymous => "anonymous struct without members or var"

structure Fault where
  place : Place
  cause : Cause
deriving DecidableEq, Repr

abbrev Reading := Except Fault

def refuse {α : Type} (place : Place) (cause : Cause) : Reading α := .error ⟨place, cause⟩

/-! ### Scalars -/

def scalarOf (want : Scalar) (place : Place) (v : Eval Value) : Reading Value :=
  match v with
  | .error place => refuse place .malformed
  | .ok .null | .ok .unknown => refuse place (.notAValue want)
  | .ok v =>
    match v.convert want with
    | .ok v => .ok v
    | .error reason => refuse place (.notConvertible want reason)

def textOf (e : Expression) : Reading String := do
  match ← scalarOf .text e.place e.value with
  | .text s => return s
  | _ => refuse e.place .malformed

def flagOf (e : Expression) : Reading Bool := do
  match ← scalarOf .flag e.place e.value with
  | .flag b => return b
  | _ => refuse e.place .malformed

def integerOf (e : Expression) : Reading Int64 := do
  match ← scalarOf .number e.place e.value with
  | .number n =>
    match n.toInt64? with
    | some i => return i
    | none => refuse e.place .notWhole
  | _ => refuse e.place .malformed

/-- The key of an item: a bare word, or the text of an expression. -/
def keyOf (key : Expression) : Reading String :=
  match key.keyword? with
  | some word => .ok word
  | none => textOf key

def Step.name? : Step → Option String
  | .attribute _ name => some name
  | .index _ _ => none

def nameOf? : Expression → Option String
  | .name _ root steps =>
    (steps.mapM Step.name?).map fun names => String.intercalate "." (root :: names)
  | e => e.keyword?

/-! ### Types -/

/-- How many arguments the constructors of fixed arity take. -/
def arityOf? : String → Option Nat
  | "list" | "set" | "unordered_set" | "optional" | "ptr" | "unique" | "shared" | "object"
  | "opaque" => some 1
  | "map" | "unordered_map" | "pair" | "array" => some 2
  | _ => none

def indirections : List (String × Kind) :=
  [("optional", .optional), ("ptr", .pointer), ("unique", .uniquePtr), ("shared", .sharedPtr)]

def containers : List (String × Kind) :=
  [("list", .list), ("set", .set), ("unordered_set", .unorderedSet), ("map", .map),
   ("unordered_map", .unorderedMap), ("pair", .pair), ("variant", .variant), ("tuple", .tuple)]

def namedType (place : Place) (name : String) : Reading TypeExpr :=
  match Kind.ofName? name with
  | some k =>
    if k.isPrimitive then .ok (.prim k)
    else if k = .structRef then .ok (.ref name)
    else refuse place (.needsArguments name)
  | none => .ok (.ref name)

def constructed (place : Place) (name : String) (args : List TypeExpr) : Reading TypeExpr :=
  match indirections.lookup name, args with
  | some k, elem :: _ => .ok (.indirection k elem)
  | _, args =>
    match containers.lookup name with
    | none => refuse place (.unknownConstructor name)
    | some k =>
      if args.isEmpty then refuse place (.needsOneType name) else .ok (.container k args)

mutual

def typeOf : Expression → Reading TypeExpr
  | .call place function arguments =>
    let given := arguments.length
    match arityOf? function with
    | some wanted =>
      if given ≠ wanted then refuse place (.arity function wanted given)
      else callOf place function arguments
    | none => callOf place function arguments
  | e =>
    match nameOf? e with
    | some name => namedType e.place name
    | none => refuse e.place .notAType

def callOf (place : Place) : String → List Expression → Reading TypeExpr
  | "object", [.object _ items] => do
    let members ← membersOf items
    return .inline { isAnonymous := true, members }
  | "object", e :: _ => refuse e.place .notAFieldMap
  | "opaque", e :: _ => do return .opaqueText (← textOf e)
  | "array", [elem, len] => do
    let t ← typeOf elem
    let n ← integerOf len
    if n ≤ 0 then refuse len.place .lengthNotPositive
    else return .generic .array [t] n
  | function, arguments => do constructed place function (← typesOf arguments)

def typesOf : List Expression → Reading (List TypeExpr)
  | [] => .ok []
  | e :: es => do
    let t ← typeOf e
    return t :: (← typesOf es)

/-- The fields of an object type in source order. -/
def membersOf : List (Expression × Expression) → Reading (List Member)
  | [] => .ok []
  | (key, value) :: rest => do
    let name ← keyOf key
    let type ← typeOf value
    return .field ⟨name, type, []⟩ :: (← membersOf rest)

end

end Schemata.Hcl
