import Schemata.Text.Quoted

/-!
Flags and whole numbers as settings spell them. A number is decimal unless it announces another
base, and underscores may stand between its digits.
-/

namespace Schemata.Text.Setting

def flag? (s : String) : Option Bool :=
  if ["1", "t", "T", "true", "TRUE", "True"].contains s then some true
  else if ["0", "f", "F", "false", "FALSE", "False"].contains s then some false
  else none

inductive NumberFault where
  | malformed
  | outOfRange
deriving DecidableEq, Repr

/-- The base that the start of a number announces, and the digits behind it. -/
def announced : List Char → Nat × List Char
  | ['0'] => (8, [])
  | '0' :: c :: rest =>
    let other := if rest.isEmpty then none
      else if c = 'b' ∨ c = 'B' then some 2
      else if c = 'o' ∨ c = 'O' then some 8
      else if c = 'x' ∨ c = 'X' then some 16
      else none
    match other with
    | some base => (base, rest)
    | none => (8, c :: rest)
  | cs => (10, cs)

/-- The value of digits, read until it passes 64 bits. Underscores are passed over. -/
def valueFrom (base : Nat) : Nat → List Char → Except NumberFault Nat
  | n, [] => .ok n
  | n, c :: rest =>
    if c = '_' then valueFrom base n rest
    else match hexValue? c with
      | none => .error .malformed
      | some d =>
        if d ≥ base then .error .malformed
        else if n * base + d ≥ Nat.pow 2 64 then .error .outOfRange
        else valueFrom base (n * base + d) rest

/-- Whether every underscore stands between two digits; `digit` tells that one is in front. -/
def separated (digit : Bool) : List Char → Bool
  | [] => true
  | '_' :: c :: rest => digit && c != '_' && separated true (c :: rest)
  | ['_'] => false
  | _ :: rest => separated true rest

/-- A number without its sign. An announced base counts as a digit before an underscore. -/
def natural (cs : List Char) : Except NumberFault Nat := do
  if cs.isEmpty then throw .malformed
  let (base, digits) := announced cs
  let n ← valueFrom base 0 digits
  if separated (base ≠ 10) digits then return n else throw .malformed

def integer (s : String) : Except NumberFault Int64 := do
  let (negative, cs) := match s.toList with
    | '-' :: cs => (true, cs)
    | '+' :: cs => (false, cs)
    | cs => (false, cs)
  let n ← natural cs
  let i : Int := if negative then -(n : Int) else n
  if -(Int.pow 2 63) ≤ i ∧ i < Int.pow 2 63 then return Int64.ofInt i else throw .outOfRange

end Schemata.Text.Setting
