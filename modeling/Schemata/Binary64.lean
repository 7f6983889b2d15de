/-!
Binary fractions of 53 significant bits, two infinities, and what is no number. A decimal number
is rounded to the nearest fraction, ties to even. The text of a fraction has the fewest digits
that round to it again, and of those the nearest.
-/

namespace Schemata

/-- A number; `finite` is its sign, and a natural below `2 ^ 53` times a power of two. -/
inductive Binary64 where
  | finite (negative : Bool) (mantissa : Nat) (exponent : Int)
  | infinite (negative : Bool)
  | nan
deriving DecidableEq, Repr

namespace Binary64

def minExponent : Int := -1074

def maxExponent : Int := 971

/-- A quotient rounded to the nearest natural, ties to even. -/
def nearest (num den : Nat) : Nat :=
  let q := num / den
  let twice := 2 * (num % den)
  if twice > den ∨ (twice = den ∧ q % 2 = 1) then q + 1 else q

/-- A numerator and a denominator times a power of a base. -/
def scaled (base num den : Nat) (power : Int) : Nat × Nat :=
  if power ≥ 0 then (num * Nat.pow base power.toNat, den)
  else (num, den * Nat.pow base (-power).toNat)

/-- The number nearest to a positive quotient. -/
def ofQuotient (negative : Bool) (num den : Nat) : Binary64 :=
  let guess : Int := (num.log2 : Int) - den.log2 - 52
  let below := scaled 2 num den (-guess)
  let power := max minExponent (if below.1 < Nat.pow 2 52 * below.2 then guess - 1 else guess)
  let (n, d) := scaled 2 num den (-power)
  let m := nearest n d
  let (m, power) := if m = Nat.pow 2 53 then (Nat.pow 2 52, power + 1) else (m, power)
  if power > maxExponent then .infinite negative else .finite negative m power

/-- The number nearest to digits times a power of ten. Powers far out of reach are cut, so that
no huge number is made. -/
def ofDecimal (negative : Bool) (digits : List Char) (power : Int) : Binary64 :=
  let n := digits.foldl (fun n c => n * 10 + (c.toNat - 48)) 0
  let size : Int := digits.length
  if n = 0 ∨ power + size < -400 then .finite negative 0 minExponent
  else if power > 400 then .infinite negative
  else
    let (num, den) := scaled 10 n 1 power
    ofQuotient negative num den

/-! ### Text -/

/-- Whether a quotient rounds to the mantissa and exponent. -/
def roundsTo (mantissa : Nat) (exponent : Int) (num den : Nat) : Bool :=
  num ≠ 0 && ofQuotient false num den == .finite false mantissa exponent

/-- The decimal of `places` behind the point that is nearest to a number among the two around it,
if one of them rounds to the number. -/
def decimalAt? (mantissa : Nat) (exponent places : Int) : Option Nat :=
  let (num, den) := scaled 2 mantissa 1 exponent
  let (num, den) := scaled 10 num den places
  let low := num / den
  let fits (n : Nat) : Bool :=
    let (p, q) := scaled 10 n 1 (-places)
    roundsTo mantissa exponent p q
  match fits low, fits (low + 1) with
  | true, true => some (nearest num den)
  | true, false => some low
  | false, true => some (low + 1)
  | false, false => none

/-- How many decimal digits stand before the point, or minus the zeros behind it. -/
def magnitude (mantissa : Nat) (exponent : Int) : Int :=
  let (num, den) := scaled 2 mantissa 1 exponent
  if num ≥ den then (Nat.toDigits 10 (num / den)).length
  else
    let size := (Nat.toDigits 10 (den / num)).length
    let (p, q) := scaled 10 num den size
    if p ≥ q then 1 - (size : Int) else -(size : Int)

/-- Positional notation of a natural with some places behind the point. -/
def positional (n : Nat) (places : Int) : String :=
  let digits := Nat.toDigits 10 n
  if places ≤ 0 then String.ofList (digits ++ List.replicate (-places).toNat '0')
  else
    let k := places.toNat
    let digits := List.replicate (k + 1 - digits.length) '0' ++ digits
    let whole := digits.take (digits.length - k)
    let fraction := ((digits.drop (digits.length - k)).reverse.dropWhile (· == '0')).reverse
    String.ofList (if fraction.isEmpty then whole else whole ++ '.' :: fraction)

def text : Binary64 → String
  | .nan => "NaN"
  | .infinite negative => if negative then "-Inf" else "+Inf"
  | .finite negative m e =>
    let sign := if negative then "-" else ""
    if m = 0 then sign ++ "0"
    else
      let size := magnitude m e
      let shortest := (List.range 18).findSome? fun (digits : Nat) =>
        let places := (digits : Int) - size
        (decimalAt? m e places).map fun n => positional n places
      sign ++ shortest.getD "0"

def isZero : Binary64 → Bool
  | .finite _ 0 _ => true
  | _ => false

/-- The part before the point in 64 bits. What does not fit is the least number. -/
def truncate : Binary64 → Int64
  | .finite negative m e =>
    let (num, den) := scaled 2 m 1 e
    let n : Int := num / den
    let n := if negative then -n else n
    if -(Int.pow 2 63) ≤ n ∧ n < Int.pow 2 63 then Int64.ofInt n else Int64.minValue
  | _ => Int64.minValue

end Binary64

end Schemata
