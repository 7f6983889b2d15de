import Schemata.Naming.Words

/-!
Naming styles. A style is configured by name, so an unknown name is a style too: it is not
valid, and it leaves names as they are.
-/

namespace Schemata.Naming

open Text

/-- "id_or_name" becomes "IdOrName"; runs of upper-case letters stay. -/
def pascalCase (s : String) : String :=
  String.join ((words s).map capitalize)

/-- "OrderID" becomes "orderID". -/
def camelCase (s : String) : String :=
  match words s with
  | [] => ""
  | w :: ws => lower w ++ String.join (ws.map capitalize)

/-- The words lower-cased, with `separator` between them. -/
def lowerJoined (separator : String) (s : String) : String :=
  String.intercalate separator ((words s).map lower)

def snakeCase (s : String) : String := lowerJoined "_" s

def kebabCase (s : String) : String := lowerJoined "-" s

def screamingSnakeCase (s : String) : String := upper (snakeCase s)

inductive Style where
  | unset
  | preserve
  | pascal
  | camel
  | snake
  | screaming
  /-- The other name of `screaming`. -/
  | upperSnake
  | kebab
  | lowercase
  | unrecognized (name : String)
deriving DecidableEq, Repr

namespace Style

def ofName : String → Style
  | "" => .unset
  | "preserve" => .preserve
  | "PascalCase" => .pascal
  | "camelCase" => .camel
  | "snake_case" => .snake
  | "SCREAMING_SNAKE_CASE" => .screaming
  | "UPPER_SNAKE_CASE" => .upperSnake
  | "kebab-case" => .kebab
  | "lowercase" => .lowercase
  | s => .unrecognized s

def name : Style → String
  | .unset => ""
  | .preserve => "preserve"
  | .pascal => "PascalCase"
  | .camel => "camelCase"
  | .snake => "snake_case"
  | .screaming => "SCREAMING_SNAKE_CASE"
  | .upperSnake => "UPPER_SNAKE_CASE"
  | .kebab => "kebab-case"
  | .lowercase => "lowercase"
  | .unrecognized s => s

def isValid : Style → Bool
  | .unrecognized _ => false
  | _ => true

def apply (style : Style) (s : String) : String :=
  match style with
  | .pascal => pascalCase s
  | .camel => camelCase s
  | .snake => snakeCase s
  | .screaming | .upperSnake => screamingSnakeCase s
  | .kebab => kebabCase s
  | .lowercase => lower (String.join (words s))
  | .unset | .preserve | .unrecognized _ => s

end Style

end Schemata.Naming
