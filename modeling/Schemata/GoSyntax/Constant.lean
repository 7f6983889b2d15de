import Schemata.GoSyntax.Tree
import Schemata.Text.Quoted

/-!
Values of integer constants: literals, `iota`, and what arithmetic makes of them. Arithmetic is
that of 64-bit words.
-/

namespace Schemata.GoSyntax

open Text

/-- The base a literal is written in, and its digits. -/
def literalDigits : List Char → Nat × List Char
  | '0' :: c :: rest =>
    if c = 'x' ∨ c = 'X' then (16, rest)
    else if c = 'o' ∨ c = 'O' then (8, rest)
    else if c = 'b' ∨ c = 'B' then (2, rest)
    else (8, c :: rest)
  | cs => (10, cs)

/-- The value of an integer literal that fits in 63 bits. -/
def integerValue? (text : String) : Option Int64 := do
  let (base, digits) := literalDigits text.toList
  let n ← Quoted.number? base (digits.filter (· ≠ '_'))
  if n < Nat.pow 2 63 then return Int64.ofNat n else none

/-- A sum, product or the like. Nothing is divided by zero or shifted past the word. -/
def binaryValue? (operator : String) (x y : Int64) : Option Int64 :=
  match operator with
  | "+" => some (x + y)
  | "-" => some (x - y)
  | "*" => some (x * y)
  | "/" => if y = 0 then none else some (x / y)
  | "%" => if y = 0 then none else some (x % y)
  | "<<" => if y < 0 ∨ y > 63 then none else some (x <<< y)
  | ">>" => if y < 0 ∨ y > 63 then none else some (x >>> y)
  | "|" => some (x ||| y)
  | "&" => some (x &&& y)
  | "^" => some (x ^^^ y)
  | "&^" => some (x &&& ~~~y)
  | _ => none

def unaryValue? (operator : String) (x : Int64) : Option Int64 :=
  match operator with
  | "+" => some x
  | "-" => some (-x)
  | "^" => some (~~~x)
  | _ => none

mutual

/-- The value of a constant expression, given that of `iota`. Conversions keep the value; other
names have none. -/
def Expr.value? (iota : Int64) : Expr → Option Int64
  | .literal l => if l.kind = .integer then integerValue? l.text else none
  | .identifier id => if id.name = "iota" then some iota else none
  | .paren _ x => x.value? iota
  | .unary _ op x => do unaryValue? op (← x.value? iota)
  | .binary x op y => do
    let a ← x.value? iota
    let b ← y.value? iota
    binaryValue? op a b
  | .call (.identifier _) args _ => soleValue? iota args
  | _ => none

def soleValue? (iota : Int64) : List Expr → Option Int64
  | [x] => x.value? iota
  | _ => none

end

end Schemata.GoSyntax
