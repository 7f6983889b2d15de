/-!
Numbers of the expression language: binary fractions of 512 significant bits, rounded to the
nearest one, ties to even, and two infinities. Their text has the fewest decimal digits that
read back.
-/

namespace Schemata.Hcl

/-- A number; `finite` is its sign, and a natural times a power of two. -/
inductive Number where
  | finite (negative : Bool) (mantissa : Nat) (exponent : Int)
  | infinite (negative : Bool)
deriving DecidableEq, Repr

namespace Number

def precision : Nat := 512

def bits (n : Nat) : Nat := if n = 0 then 0 else n.log2 + 1

/-- Rounds to a number of bits; `rest` tells that something smaller than the last bit is left
out. -/
def roundTo (width : Nat) (mantissa : Nat) (exponent : Int) (rest : Bool) : Nat × Int :=
  let size := bits mantissa
  if size ≤ width then (mantissa, exponent)
  else
    let drop := size - width
    let kept := mantissa >>> drop
    let cut := mantissa - (kept <<< drop)
    let half := 1 <<< (drop - 1)
    let up := cut > half || (cut == half && (rest || kept % 2 == 1))
    (if up then kept + 1 else kept, exponent + drop)

def round (width : Nat) (negative : Bool) (mantissa : Nat) (exponent : Int) (rest : Bool) :
    Number :=
  let (m, e) := roundTo width mantissa exponent rest
  .finite negative m e

def ofNat (n : Nat) : Number := round precision false n 0 false

def zero : Number := .finite false 0 0

def isZero : Number → Bool
  | .finite _ 0 _ => true
  | _ => false

def neg : Number → Number
  | .finite s m e => .finite (!s) m e
  | .infinite s => .infinite (!s)

/-- The signed integer of a mantissa over a smaller exponent. -/
def scaled (negative : Bool) (mantissa : Nat) (exponent low : Int) : Int :=
  let n : Int := mantissa <<< (exponent - low).toNat
  if negative then -n else n

/-- A sum; opposite infinities have none. -/
def add? : Number → Number → Option Number
  | .infinite s, .infinite t => if s = t then some (.infinite s) else none
  | .infinite s, _ => some (.infinite s)
  | _, .infinite t => some (.infinite t)
  | .finite s 0 _, .finite t 0 _ => some (.finite (s && t) 0 0)
  | .finite _ 0 _, y => some y
  | x, .finite _ 0 _ => some x
  | .finite s m e, .finite t n f =>
    let low := min e f
    let sum := scaled s m e low + scaled t n f low
    if sum = 0 then some zero
    else some (round precision (sum < 0) sum.natAbs low false)

def sub? (x y : Number) : Option Number := add? x y.neg

/-- A product to some bits; zero times infinity has none. -/
def mulTo? (width : Nat) : Number → Number → Option Number
  | .infinite s, .infinite t => some (.infinite (s != t))
  | .infinite s, .finite t n _ => if n = 0 then none else some (.infinite (s != t))
  | .finite s m _, .infinite t => if m = 0 then none else some (.infinite (s != t))
  | .finite s m e, .finite t n f =>
    if m = 0 ∨ n = 0 then some (.finite (s != t) 0 0)
    else some (round width (s != t) (m * n) (e + f) false)

def mul? : Number → Number → Option Number := mulTo? precision

/-- A quotient; zero by zero and infinity by infinity have none. -/
def div? : Number → Number → Option Number
  | .infinite _, .infinite _ => none
  | .infinite s, .finite t _ _ => some (.infinite (s != t))
  | .finite s _ _, .infinite t => some (.finite (s != t) 0 0)
  | .finite s m e, .finite t n f =>
    if n = 0 then if m = 0 then none else some (.infinite (s != t))
    else if m = 0 then some (.finite (s != t) 0 0)
    else
      let shift := precision + 2 + bits n
      let top := m <<< shift
      some (round precision (s != t) (top / n) (e - f - shift) (top % n != 0))

def truncated : Number → Number
  | .finite s m e =>
    if e ≥ 0 then .finite s m e else .finite s (m >>> (-e).toNat) 0
  | x => x

/-- The remainder of truncated division; nothing is left out for a zero divisor. -/
def rem? (x y : Number) : Option Number :=
  match x, y with
  | .infinite _, _ | _, .infinite _ => mul? x y
  | x, y =>
    if y.isZero then some x
    else do sub? x (← mul? y (← div? x y).truncated)

def compare : Number → Number → Ordering
  | .infinite s, .infinite t => if s = t then .eq else if s then .lt else .gt
  | .infinite s, _ => if s then .lt else .gt
  | _, .infinite t => if t then .gt else .lt
  | .finite s m e, .finite t n f =>
    let low := min e f
    Ord.compare (scaled s m e low) (scaled t n f low)

/-- The number of 64 bits a number is, if it is one. -/
def toInt64? : Number → Option Int64
  | .infinite _ => none
  | .finite s m e =>
    if m = 0 then some 0
    else if (bits m : Int) + e > 64 then none
    else
      let whole : Option Nat :=
        if e ≥ 0 then some (m <<< e.toNat)
        else
          let k := (-e).toNat
          let n := m >>> k
          if n <<< k = m then some n else none
      whole.bind fun n =>
        let i : Int := if s then -(n : Int) else n
        if -(Int.pow 2 63) ≤ i ∧ i < Int.pow 2 63 then some (Int64.ofInt i) else none

/-! ### Reading -/

/-- Powers of five to a number of bits, by squaring. -/
def powFive (width n : Nat) : Number :=
  if n ≤ 27 then .finite false (Nat.pow 5 n) 0
  else go 64 (n - 27) (.finite false (Nat.pow 5 27) 0) (.finite false 5 0)
where
  go : Nat → Nat → Number → Number → Number
    | 0, _, z, _ => z
    | fuel + 1, n, z, f =>
      if n = 0 then z
      else
        let z := if n % 2 = 1 then (mulTo? width z f).getD z else z
        go fuel (n / 2) z ((mulTo? (width + 64) f f).getD f)

def digitsOf (cs : List Char) : Nat := cs.foldl (fun n c => n * 10 + (c.toNat - 48)) 0

/-- An exponent behind its mark: the base, and the power. -/
def exponentOf? : List Char → Option (Nat × Int)
  | [] => some (10, 0)
  | mark :: cs =>
    let base := if mark == 'e' || mark == 'E' then some 10
      else if mark == 'p' || mark == 'P' then some 2
      else none
    let (negative, ds) := match cs with
      | '-' :: ds => (true, ds)
      | '+' :: ds => (false, ds)
      | ds => (false, ds)
    if ds.isEmpty || !ds.all Char.isDigit then none
    else base.map fun b => (b, if negative then -(digitsOf ds : Int) else digitsOf ds)

def maxExponent : Int := Int.pow 2 31 - 1

/-- Reads a decimal number: digits with a point, and an exponent of ten or two. -/
def parse? (s : List Char) : Option Number :=
  let (negative, cs) := match s with
    | '-' :: cs => (true, cs)
    | '+' :: cs => (false, cs)
    | cs => (false, cs)
  if cs == ['I', 'n', 'f'] || cs == ['i', 'n', 'f'] then some (.infinite negative)
  else
    let whole := cs.takeWhile Char.isDigit
    let rest := cs.dropWhile Char.isDigit
    let (fraction, rest) := match rest with
      | '.' :: rest => (rest.takeWhile Char.isDigit, rest.dropWhile Char.isDigit)
      | rest => ([], rest)
    if whole.isEmpty && fraction.isEmpty then none
    else (exponentOf? rest).bind fun (base, power) =>
      let mantissa := digitsOf (whole ++ fraction)
      if mantissa = 0 then some (.finite negative 0 0)
      else
        let ten : Int := (if base = 10 then power else 0) - (fraction.length : Int)
        let two : Int := ten + (if base = 2 then power else 0)
        if two + bits mantissa > maxExponent ∨ two + bits mantissa < -maxExponent - 1 then none
        else
          let start : Number := .finite negative mantissa two
          if ten = 0 then some (round precision negative mantissa two false)
          else if ten < 0 then div? start (powFive (precision + 64) (-ten).toNat)
          else mul? start (powFive (precision + 64) ten.toNat)

/-! ### Writing -/

/-- Decimal digits without zeros at the end, and the place of the point before them. -/
structure Decimal where
  digits : List Nat
  point : Int
deriving Repr

namespace Decimal

def strip (digits : List Nat) : List Nat := (digits.reverse.dropWhile (· == 0)).reverse

/-- A natural times a power of two, exactly. -/
def ofBinary (mantissa : Nat) (exponent : Int) : Decimal :=
  if mantissa = 0 then ⟨[], 0⟩
  else
    let (n, places) := if exponent ≥ 0 then (mantissa <<< exponent.toNat, 0)
      else (mantissa * Nat.pow 5 (-exponent).toNat, (-exponent).toNat)
    let ds := (Nat.toDigits 10 n).map fun c => c.toNat - 48
    ⟨strip ds, (ds.length : Int) - places⟩

variable (d : Decimal)

def digitAt (i : Nat) : Nat := d.digits.getD i 0

def roundDown (n : Nat) : Decimal :=
  if n ≥ d.digits.length then d
  else
    let ds := strip (d.digits.take n)
    if ds.isEmpty then ⟨[], 0⟩ else ⟨ds, d.point⟩

def roundUp (n : Nat) : Decimal :=
  if n ≥ d.digits.length then d
  else
    match (d.digits.take n).reverse.dropWhile (· == 9) with
    | [] => ⟨[1], d.point + 1⟩
    | x :: xs => ⟨((x + 1) :: xs).reverse, d.point⟩

/-- Rounds to `n` digits, to the nearest, ties to even. -/
def roundNear (n : Nat) : Decimal :=
  if n ≥ d.digits.length then d
  else
    let next := d.digitAt n
    let up := if next = 5 ∧ n + 1 = d.digits.length
      then n > 0 && d.digitAt (n - 1) % 2 == 1
      else next ≥ 5
    if up then d.roundUp n else d.roundDown n

/-- The digits of `d` as far as they tell it from its neighbours `lower` and `upper`, which
count as far as they are `inclusive`. -/
def shorten (d lower upper : Decimal) (inclusive : Bool) : Decimal :=
  let step := d.digits.zipIdx.findSome? fun (m, i) =>
    let l := lower.digitAt i
    let u := upper.digitAt i
    let down := l != m || (inclusive && i + 1 == lower.digits.length)
    let up := m != u && (inclusive || m + 1 < u || i + 1 < upper.digits.length)
    if down && up then some (d.roundNear (i + 1))
    else if down then some (d.roundDown (i + 1))
    else if up then some (d.roundUp (i + 1))
    else none
  step.getD d

def text : String :=
  let digit (n : Nat) : Char := Char.ofNat (48 + n)
  let whole :=
    if d.point > 0 then
      let n := d.point.toNat
      (d.digits.take n).map digit ++ List.replicate (n - d.digits.length) '0'
    else ['0']
  let fraction :=
    if d.point ≥ 0 then (d.digits.drop d.point.toNat).map digit
    else List.replicate (-d.point).toNat '0' ++ d.digits.map digit
  String.ofList (if fraction.isEmpty then whole else whole ++ '.' :: fraction)

end Decimal

def text : Number → String
  | .infinite s => if s then "-Inf" else "+Inf"
  | .finite s m e =>
    let sign := if s then "-" else ""
    if m = 0 then sign ++ "0"
    else
      let size := bits m
      let d := Decimal.ofBinary m e
      let n := if size > precision + 1 then m >>> (size - precision - 1)
        else m <<< (precision + 1 - size)
      let f : Int := e + size - (precision + 1 : Nat)
      let lower := Decimal.ofBinary (n - 1) f
      let upper := Decimal.ofBinary (n + 1) f
      sign ++ (d.shorten lower upper (n / 2 % 2 == 0)).text

end Number

end Schemata.Hcl
