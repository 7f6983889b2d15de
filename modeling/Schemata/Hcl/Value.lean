import Schemata.Hcl.Syntax
import Schemata.Text.Case
import Schemata.Text.Composition

/-!
Values of expressions and the conversions between them. Texts are kept in composed form.
-/

namespace Schemata.Hcl

open Text

inductive Value where
  | null
  | flag (b : Bool)
  | number (n : Number)
  | text (s : String)
  | tuple (entries : List Value)
  /-- Fields in the order of their names. -/
  | object (fields : List (String × Value))
  | unknown

inductive Scalar where
  | flag
  | number
  | text
deriving DecidableEq, Repr

def Scalar.name : Scalar → String
  | .flag => "bool"
  | .number => "number"
  | .text => "string"

namespace Value

def ofText (s : String) : Value := .text (composed s)

def ofLiteral : Literal → Value
  | .null => .null
  | .flag b => .flag b
  | .number n => .number n
  | .text s => ofText s

def typeName : Value → String
  | .null | .unknown => "dynamic"
  | .flag _ => "bool"
  | .number _ => "number"
  | .text _ => "string"
  | .tuple _ => "tuple"
  | .object _ => "object"

/-- The truth a text spells, or why it spells none. -/
def flagOf (s : String) : Except String Bool :=
  if s = "true" ∨ s = "1" then .ok true
  else if s = "false" ∨ s = "0" then .ok false
  else match lower s with
    | "true" => .error "a bool is required; to convert from string, use lowercase \"true\""
    | "false" => .error "a bool is required; to convert from string, use lowercase \"false\""
    | _ => .error "a bool is required"

/-- A value as a scalar, or why it is none. What is null or not known stays so. -/
def convert (want : Scalar) (v : Value) : Except String Value :=
  match want, v with
  | _, .null | _, .unknown => .ok v
  | .flag, .flag _ | .number, .number _ | .text, .text _ => .ok v
  | .text, .flag b => .ok (.text (if b then "true" else "false"))
  | .text, .number n => .ok (.text n.text)
  | .number, .text s =>
    match Number.parse? s.toList with
    | some n => .ok (.number n)
    | none => .error "a number is required"
  | .flag, .text s => (flagOf s).map .flag
  | want, v => .error (want.name ++ " required, but have " ++ v.typeName)

mutual

def isKnown : Value → Bool
  | .unknown => false
  | .tuple vs => areKnown vs
  | .object fields => fieldsKnown fields
  | _ => true

def areKnown : List Value → Bool
  | [] => true
  | v :: vs => v.isKnown && areKnown vs

def fieldsKnown : List (String × Value) → Bool
  | [] => true
  | (_, v) :: rest => v.isKnown && fieldsKnown rest

end

mutual

def same : Value → Value → Bool
  | .null, .null => true
  | .flag a, .flag b => a == b
  | .number a, .number b => a.compare b == .eq
  | .text a, .text b => a == b
  | .tuple a, .tuple b => sameEntries a b
  | .object a, .object b => sameFields a b
  | _, _ => false

def sameEntries : List Value → List Value → Bool
  | [], [] => true
  | a :: as, b :: bs => same a b && sameEntries as bs
  | _, _ => false

def sameFields : List (String × Value) → List (String × Value) → Bool
  | [], [] => true
  | (k, a) :: as, (l, b) :: bs => k == l && same a b && sameFields as bs
  | _, _ => false

end

/-- Puts a field in its place; a field of that name is replaced. -/
def putField (name : String) (v : Value) : List (String × Value) → List (String × Value)
  | [] => [(name, v)]
  | (k, w) :: rest =>
    if name = k then (name, v) :: rest
    else if name < k then (name, v) :: (k, w) :: rest
    else (k, w) :: putField name v rest

end Value

end Schemata.Hcl
