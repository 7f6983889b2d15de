import Schemata.Failure
import Schemata.GoSyntax.File
import Schemata.GoSyntax.TypeReading

/-!
Modules from Go source. Structs are structs; a named number type with constants is an enum; an
interface that only its own marker method implements is an enum with payloads, one value for each
struct that has the method; an interface of calls from a request to a response is a service.
-/

namespace Schemata.GoSyntax

open Text

def key : String := "go"

/-! ### What a file declares -/

def typeSpecs (f : File) : List TypeSpec :=
  f.decls.flatMap fun d => match d.form with
    | .types specs => specs
    | _ => []

/-- Whether an interface has one method, named after it, without parameters and results. -/
def isSealed (spec : TypeSpec) : Bool :=
  match spec.type with
  | .interface _ _ [.mk [name] (.functionType _ signature) _ _ _] =>
    name.name == "is" ++ spec.name.name && fieldCount signature.params == 0 &&
      fieldCount signature.results == 0
  | _ => false

/-- The constants of one declaration. One without type and values repeats those before it. -/
def constantsOf (type : String) (values : List Expr) (iota : Int64) :
    List ValueSpec → List (String × Constant)
  | [] => []
  | spec :: rest =>
    let isNew := spec.type.isSome || !spec.values.isEmpty
    let type := if isNew then
        match spec.type with
        | some (.identifier id) => id.name
        | _ => ""
      else type
    let values := if isNew then spec.values else values
    let here :=
      if type = "" then []
      else (spec.names.zip values).filterMap fun (name, value) =>
        if name.name = "_" then none else some (type, ⟨name.name, value, iota⟩)
    here ++ constantsOf type values (iota + 1) rest

def marker? (d : FunctionDecl) : Option (String × String) :=
  match d.receiver with
  | some [group] =>
    if d.name.name.startsWith "is" ∧ fieldCount d.signature.params = 0 ∧
        fieldCount d.signature.results = 0 then
      let interface := String.ofList (d.name.name.toList.drop 2)
      match group.type with
      | .identifier id | .star _ (.identifier id) => some (id.name, interface)
      | _ => none
    else none
  | _ => none

def scopeOf (f : File) : Scope :=
  let specs := typeSpecs f
  { types := (specs.map fun s => (s.name.name, s)).reverse
    constants := f.decls.flatMap fun d => match d.form with
      | .constants specs => constantsOf "" [] 0 specs
      | _ => []
    sealedNames := (specs.filter isSealed).map (·.name.name)
    markers := (f.decls.filterMap fun d => match d.form with
      | .function d => marker? d
      | _ => none).reverse }

/-! ### Declarations -/

/-- A name without the type name it starts with, and an underscore behind that. -/
def trimTypeName (name type : String) : String :=
  if type.toList.isPrefixOf name.toList then
    let rest := name.toList.drop type.length
    let rest := if rest.head? = some '_' then rest.drop 1 else rest
    if rest.isEmpty then name else String.ofList rest
  else name

def readEnum (name underlying : String) (constants : List Constant) : Read Enum := do
  let values ← constants.mapM fun c => do
    match c.value.value? c.iota with
    | some n => return (⟨trimTypeName c.name name, n, [], .missing⟩ : EnumValue)
    | none => refuse c.value.place (.constant c.name)
  return { name, underlying, values }

/-- The data of a value: nothing, a sole field named Value, or a struct. -/
def readPayload (scope : Scope) (fields : List FieldGroup) : Read TypeExpr :=
  match fields with
  | [] => return .prim .monostate
  | fields =>
    let inline : Read TypeExpr := do
      return .inline (← readFields (readType scope) { isAnonymous := true } fields)
    match fields with
    | [.mk [name] type _ _ _] => if name.name = "Value" then readType scope type else inline
    | _ => inline

/-- The values of a sealed interface, in the order of the structs that implement it. -/
def readSealedValues (scope : Scope) (interface : String) (number : Int64) :
    List TypeSpec → Read (List EnumValue)
  | [] => return []
  | spec :: rest =>
    match spec.type with
    | .struct _ _ fields =>
      if scope.markers.lookup spec.name.name = some interface then do
        let payload ← readPayload scope fields
        let value : EnumValue :=
          ⟨trimTypeName spec.name.name interface, number, [], payload⟩
        return value :: (← readSealedValues scope interface (number + 1) rest)
      else readSealedValues scope interface number rest
    | _ => readSealedValues scope interface number rest

def flatTypes (fields : List FieldGroup) : List Expr :=
  fields.flatMap fun f => List.replicate f.size f.type

def Expr.pointee : Expr → Expr
  | .star _ x => x
  | x => x

/-- A method from a context and a request to a response or an error. -/
def method? : FieldGroup → Option Method
  | .mk [name] (.functionType _ signature) _ _ _ =>
    match flatTypes signature.params, flatTypes signature.results with
    | [context, request], [response, error] =>
      let request := request.pointee.typeName
      let response := response.pointee.typeName
      if context.typeName = "context.Context" ∧ error.typeName = "error" ∧ request ≠ "" ∧
          response ≠ "" then
        some { name := name.name, request, response }
      else none
    | _, _ => none
  | _ => none

def service? (name : String) (elements : List FieldGroup) : Option Service :=
  if elements.isEmpty then none
  else (elements.mapM method?).map fun methods => { name, methods }

/-- The declaration of a type. A type that only serves another declaration has none. -/
def readNode (scope : Scope) (all : List TypeSpec) (spec : TypeSpec) : Read (Option Node) :=
  let name := spec.name.name
  if spec.isAlias then return none
  else match spec.type with
    | .struct _ _ fields => do
      if scope.isWrapper name then return none
      else return some (.struct (← readFields (readType scope) { name } fields))
    | .interface _ _ elements => do
      if scope.sealedNames.contains name then
        let values ← readSealedValues scope name 0 all
        return some (.enum { name, isScoped := true, values })
      else return (service? name elements).map .service
    | .identifier id => do
      let constants := scope.constantsOf name
      if isBuiltin id.name ∧ !constants.isEmpty then
        return some (.enum (← readEnum name id.name constants))
      else return none
    | _ => return none

def moduleOf (f : File) : Read Module := do
  let specs := typeSpecs f
  let nodes ← specs.mapM (readNode (scopeOf f) specs)
  return { source := key, namespaces := [f.package.name], nodes := nodes.filterMap id }

def readModule (bytes : List UInt8) : Except SyntaxFault Module :=
  match parse bytes with
  | .error place =>
    .error { language := key, line := place.line, column := place.column,
             refusal := .malformed "" }
  | .ok f =>
    match ((moduleOf f).run []).1 with
    | .ok m => .ok m
    | .error fault =>
      .error { language := key, line := fault.place.line, column := fault.place.column,
               refusal := .meaningless fault.cause.message }

end Schemata.GoSyntax
