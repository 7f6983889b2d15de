import Schemata.Hcl.Number
import Schemata.Text.Place

/-!
The block language as trees: bodies of settings and blocks, and expressions.
-/

namespace Schemata.Hcl

open Text

inductive Literal where
  | null
  | flag (b : Bool)
  | number (n : Number)
  | text (s : String)
deriving DecidableEq, Repr

inductive Operator where
  | or
  | and
  | equal
  | notEqual
  | greater
  | greaterEqual
  | less
  | lessEqual
  | add
  | subtract
  | multiply
  | divide
  | remainder
deriving DecidableEq, Repr

inductive Step where
  | attribute (place : Place) (name : String)
  | index (place : Place) (key : Literal)
deriving DecidableEq, Repr

inductive Expression where
  | literal (place : Place) (v : Literal)
  /-- A name and the steps behind it. -/
  | name (place : Place) (root : String) (steps : List Step)
  /-- Steps from another expression. -/
  | steps (source : Expression) (steps : List Step)
  | index (source key : Expression) (bracket : Place)
  /-- The same steps from each entry; `each` refers to it by `entry`. -/
  | splat (source each : Expression) (marker : Place)
  | entry (place : Place)
  | call (place : Place) (function : String) (arguments : List Expression)
  | conditional (place : Place) (condition yes no : Expression)
  | binary (op : Operator) (left right : Expression)
  | negation (place : Place) (operand : Expression)
  | complement (place : Place) (operand : Expression)
  | parentheses (place : Place) (inner : Expression)
  /-- Parts put together to a text. -/
  | template (place : Place) (parts : List Expression)
  /-- A template that is one interpolation and nothing else. -/
  | wrapped (place : Place) (inner : Expression)
  /-- The texts of a comprehension put together. -/
  | joined (inner : Expression)
  | tuple (place : Place) (entries : List Expression)
  /-- Keys and values; a key in parentheses is never read as a bare word. -/
  | object (place : Place) (items : List (Expression × Expression))
  /-- A comprehension; with a key expression it makes an object. -/
  | comprehension (place : Place) (keyName valueName : String) (source : Expression)
      (key : Option Expression) (value : Expression) (condition : Option Expression)
      (grouped : Bool)
  | broken (place : Place)

namespace Expression

def place : Expression → Place
  | .literal p _ | .name p _ _ | .entry p | .call p _ _ | .conditional p _ _ _ | .negation p _
  | .complement p _ | .parentheses p _ | .template p _ | .wrapped p _ | .tuple p _
  | .object p _ | .comprehension p _ _ _ _ _ _ _ | .broken p => p
  | .steps source _ | .index source _ _ | .splat source _ _ => source.place
  | .binary _ left _ => left.place
  | .joined inner => inner.place

/-- The place that is named when an expression is of the wrong form. -/
def mark : Expression → Place
  | .index _ _ bracket => bracket
  | .splat _ _ marker => marker
  | .conditional _ condition _ _ => condition.mark
  | .binary _ left _ => left.mark
  | .parentheses _ inner => inner.mark
  | .template p parts =>
    match parts with
    | part :: _ => part.mark
    | [] => p
  | .joined inner => inner.mark
  | .steps source _ => source.place
  | e => e.place

end Expression

structure Setting where
  name : String
  place : Place
  value : Expression

mutual

structure Body where
  place : Place
  settings : List Setting := []
  blocks : List Block := []

structure Block where
  kind : String
  place : Place
  labels : List (String × Place)
  body : Body

end

def Body.find? (b : Body) (name : String) : Option Expression :=
  (b.settings.find? (·.name == name)).map (·.value)

end Schemata.Hcl
