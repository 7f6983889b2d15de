/-!
What plain scalars mean: null, truth values, integers, fractions and points in time have
spellings of their own; everything else is text.
-/

namespace Schemata.Yaml

inductive Meaning where
  | null
  | bool (b : Bool)
  | int (n : Int)
  /-- A fraction, with the integer it makes when cut off, none when it is too large for 64 bits
  or no number. -/
  | float (whole : Option Int)
  | time
  | text
deriving DecidableEq, Repr

def Meaning.tag : Meaning → String
  | .null => "!!null"
  | .bool _ => "!!bool"
  | .int _ => "!!int"
  | .float _ => "!!float"
  | .time => "!!timestamp"
  | .text => "!!str"

def isDigit (c : Char) : Bool := '0' ≤ c && c ≤ '9'

def digitValue? (c : Char) : Option Nat :=
  if '0' ≤ c ∧ c ≤ '9' then some (c.toNat - 48)
  else if 'a' ≤ c ∧ c ≤ 'z' then some (c.toNat - 87)
  else if 'A' ≤ c ∧ c ≤ 'Z' then some (c.toNat - 55)
  else none

/-- The number that digits of a base spell; there has to be one. -/
def natOf? (base : Nat) (cs : List Char) : Option Nat :=
  if cs.isEmpty then none
  else cs.foldlM (fun n c =>
    match digitValue? c with
    | some d => if d < base then some (n * base + d) else none
    | none => none) 0

variable (cs : List Char)

/-- The base that the start of a number announces, and its digits. A leading zero alone
announces base eight. -/
def baseOf : Nat × List Char :=
  match cs with
  | '0' :: 'x' :: rest | '0' :: 'X' :: rest => (16, rest)
  | '0' :: 'o' :: rest | '0' :: 'O' :: rest => (8, rest)
  | '0' :: 'b' :: rest | '0' :: 'B' :: rest => (2, rest)
  | '0' :: c :: rest => (8, c :: rest)
  | cs => (10, cs)

/-- The integer that a sign and digits spell, whatever its size. -/
def intOf? : Option Int :=
  let unsigned := fun (cs : List Char) =>
    let (base, digits) := baseOf cs
    natOf? base digits
  match cs with
  | '-' :: rest => (unsigned rest).map fun n => -(n : Int)
  | '+' :: rest => (unsigned rest).map fun n => (n : Int)
  | cs => (unsigned cs).map fun n => (n : Int)

/-- An integer of 64 bits with sign, or without sign when none is written. -/
def boundedInt? : Option Int :=
  match intOf? cs with
  | some n =>
    let signed := cs.head? == some '-' || cs.head? == some '+'
    if -(Int.pow 2 63) ≤ n ∧ n < Int.pow 2 63 then some n
    else if !signed ∧ 0 ≤ n ∧ n < Int.pow 2 64 then some n
    else none
  | none => none

/-- A decimal fraction: its digits as one number and the power of ten that scales it. -/
structure Decimal where
  negative : Bool
  digits : Nat
  scale : Int

/-- The exponent after a fraction, none when what stands there is no exponent. -/
def exponent? : Option Int :=
  match cs with
  | [] => some 0
  | e :: rest =>
    if e = 'e' ∨ e = 'E' then
      match rest with
      | '-' :: ds => (natOf? 10 ds).map fun n => -(n : Int)
      | '+' :: ds => (natOf? 10 ds).map fun n => (n : Int)
      | ds => (natOf? 10 ds).map fun n => (n : Int)
    else none

/-- Reads digits, a point with digits, and an exponent. Digits have to stand before or after the
point. -/
def decimal? : Option Decimal :=
  let (negative, cs) := match cs with
    | '-' :: rest => (true, rest)
    | '+' :: rest => (false, rest)
    | cs => (false, cs)
  let whole := cs.takeWhile isDigit
  let rest := cs.dropWhile isDigit
  let (part, rest) := match rest with
    | '.' :: more => (more.takeWhile isDigit, more.dropWhile isDigit)
    | rest => ([], rest)
  if whole.isEmpty ∧ part.isEmpty then none
  else
    match exponent? rest with
    | some e =>
      some ⟨negative, ((natOf? 10 (whole ++ part)).getD 0), e - (part.length : Int)⟩
    | none => none

/-- The nearest number of double precision; none when it is too large. -/
def Decimal.toFloat? (d : Decimal) : Option Float :=
  let e := d.scale
  let magnitude :=
    if d.digits = 0 then 0
    else if e > 400 then 1.0 / 0.0
    else if e ≥ 0 then Float.ofScientific d.digits false e.toNat
    else Float.ofScientific d.digits true (-e).toNat
  if magnitude.isInf then none else some (if d.negative then -magnitude else magnitude)

/-- The integer below a fraction as 64 bits hold it; the least of them stands for what does not
fit from below. -/
def wholeOf (f : Float) : Option Int :=
  if f.isNaN then none
  else if f > 9223372036854775808.0 then none
  else if f ≥ 9223372036854775808.0 || f ≤ -9223372036854775808.0 then some (-(Int.pow 2 63))
  else some f.toInt64.toInt

/-! ### Points in time -/

def shortNumber? : Option (Nat × List Char) :=
  match cs with
  | a :: b :: rest =>
    if isDigit a && isDigit b then some ((a.toNat - 48) * 10 + (b.toNat - 48), rest)
    else if isDigit a then some (a.toNat - 48, b :: rest)
    else none
  | [a] => if isDigit a then some (a.toNat - 48, []) else none
  | [] => none

def expect? (c : Char) : List Char → Option (List Char)
  | d :: rest => if c = d then some rest else none
  | [] => none

def daysIn (year month : Nat) : Nat :=
  if month = 2 then
    if year % 4 = 0 ∧ (year % 100 ≠ 0 ∨ year % 400 = 0) then 29 else 28
  else if month = 4 ∨ month = 6 ∨ month = 9 ∨ month = 11 then 30
  else 31

def date? : Option (List Char) := do
  let year := cs.take 4
  guard (year.length = 4 ∧ year.all isDigit)
  let year ← natOf? 10 year
  let rest ← expect? '-' (cs.drop 4)
  let (month, rest) ← shortNumber? rest
  guard (1 ≤ month ∧ month ≤ 12)
  let rest ← expect? '-' rest
  let (day, rest) ← shortNumber? rest
  guard (1 ≤ day ∧ day ≤ daysIn year month)
  return rest

/-- A time of day with an optional fraction of a second, and what follows it. -/
def timeOfDay? : Option (List Char) := do
  let (hour, rest) ← shortNumber? cs
  guard (hour < 24)
  let rest ← expect? ':' rest
  let (minute, rest) ← shortNumber? rest
  guard (minute < 60)
  let rest ← expect? ':' rest
  let (second, rest) ← shortNumber? rest
  guard (second < 60)
  match rest with
  | p :: d :: more =>
    if (p = '.' ∨ p = ',') ∧ isDigit d then return more.dropWhile isDigit else return rest
  | _ => return rest

/-- Whether a zone stands here and nothing else. -/
def isZone : Bool :=
  match cs with
  | ['Z'] => true
  | [sign, a, b, ':', c, d] =>
    (sign == '+' || sign == '-') && isDigit a && isDigit b && isDigit c && isDigit d &&
      (a.toNat - 48) * 10 + (b.toNat - 48) ≤ 24 && (c.toNat - 48) * 10 + (d.toNat - 48) ≤ 60
  | _ => false

def isTimestamp : Bool :=
  if (cs.takeWhile isDigit).length ≠ 4 then false
  else match date? cs with
    | none => false
    | some [] => true
    | some (t :: rest) =>
      match timeOfDay? rest with
      | none => false
      | some zone => if t = 'T' ∨ t = 't' then isZone zone else t = ' ' ∧ zone.isEmpty

/-! ### Resolution -/

def words : List (String × Meaning) :=
  (["true", "True", "TRUE"].map (·, .bool true)) ++
    (["false", "False", "FALSE"].map (·, .bool false)) ++
    (["", "~", "null", "Null", "NULL"].map (·, .null)) ++
    ([".nan", ".NaN", ".NAN", ".inf", ".Inf", ".INF", "+.inf", "+.Inf", "+.INF"].map
      (·, .float none)) ++
    (["-.inf", "-.Inf", "-.INF"].map (·, .float (some (-(Int.pow 2 63)))))

/-- The meaning of a plain scalar. `times` tells whether points in time count. -/
def meaningOf (times : Bool) (s : String) : Meaning :=
  match words.lookup s with
  | some m => m
  | none =>
    match s.toList with
    | [] => .null
    | c :: rest =>
      let ofDecimal := fun (cs : List Char) =>
        match (decimal? cs).bind Decimal.toFloat? with
        | some f => Meaning.float (wholeOf f)
        | none => .text
      if c = '.' then
        if rest.head?.any isDigit then ofDecimal (c :: rest) else .text
      else if isDigit c ∨ c = '+' ∨ c = '-' then
        if times && isTimestamp (c :: rest) then .time
        else
          let plain := (c :: rest).filter (· != '_')
          match boundedInt? plain with
          | some n => .int n
          | none => ofDecimal plain
      else .text

def shortTag (tag : String) : String :=
  let long := "tag:yaml.org,2002:"
  if tag.startsWith long then "!!" ++ (tag.drop long.length).toString else tag

/-- The meaning of a scalar under a tag. Any data may be text; an integer may be a fraction; no
other tag may contradict the spelling. -/
def resolve? (tag s : String) : Option Meaning :=
  match tag with
  | "!!str" | "!!binary" => some .text
  | "!!float" =>
    match meaningOf false s with
    | .int n => some (.float (if n < Int.pow 2 63 then some n else none))
    | .float w => some (.float w)
    | _ => none
  | _ =>
    let m := meaningOf (tag = "" ∨ tag = "!!timestamp") s
    if tag = "" ∨ m.tag = tag then some m else none

/-! ### Spellings that other readers take for something else -/

/-- Digits in groups of sixty, such as a time of day. -/
def isSexagesimal (s : String) : Bool :=
  let cs := match s.toList with
    | '+' :: rest => rest
    | '-' :: rest => rest
    | cs => cs
  match (String.ofList cs).splitOn ":" with
  | first :: second :: more =>
    let isGroup := fun (part : String) =>
      match part.toList with
      | [d] => isDigit d
      | [a, d] => '0' ≤ a && a ≤ '5' && isDigit d
      | _ => false
    let isLast := fun (part : String) =>
      match part.splitOn "." with
      | [group] => isGroup group
      | [group, fraction] => isGroup group && fraction.toList.all fun c => isDigit c || c == '_'
      | _ => false
    let firstOk := match first.toList with
      | d :: rest => isDigit d && rest.all fun c => isDigit c || c == '_'
      | [] => false
    let groups := second :: more
    firstOk && groups.dropLast.all isGroup && isLast (groups.getLastD "")
  | _ => false

/-- Words that once were truth values. -/
def isOldBool (s : String) : Bool :=
  ["y", "Y", "yes", "Yes", "YES", "on", "On", "ON", "n", "N", "no", "No", "NO", "off", "Off",
    "OFF"].contains s

/-- Whether a text written without quotes reads back as text. -/
def readsAsText (s : String) : Bool :=
  meaningOf true s = .text && !isSexagesimal s && !isOldBool s

end Schemata.Yaml
