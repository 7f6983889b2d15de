import Schemata.Binary64
import Schemata.Toml.Decoding

/-!
TOML texts read into tables of any shape. Every number, date and time in the text has to be one,
whatever becomes of it.
-/

namespace Schemata.Toml

/-- A value of a table. Of dates and times only that they are ones is kept. -/
inductive Item where
  | text (s : String)
  | integer (n : Int64)
  | float (x : Binary64)
  | flag (b : Bool)
  | moment
  | array (entries : List Item)
  | table (entries : List (String × Item))

/-! ### Fractions -/

/-- The characters of a fraction without its underscores, each of which stands between two
digits; `digit` tells that one is in front. -/
def fractionDigits? (digit : Bool) : List Char → Option (List Char)
  | [] => some []
  | ['_'] => none
  | '_' :: c :: rest => if digit ∧ c.isDigit then fractionDigits? false (c :: rest) else none
  | c :: rest => (fractionDigits? c.isDigit rest).map (c :: ·)

variable (cs : List Char)

/-- Splits a fraction before its exponent; without one the exponent is zero. -/
def exponentOf? : Option (List Char × Int) :=
  let isMark (c : Char) : Bool := c == 'e' || c == 'E'
  match cs.dropWhile (!isMark ·) with
  | [] => some (cs, 0)
  | _ :: rest =>
    let (negative, digits) := match rest with
      | '-' :: ds => (true, ds)
      | '+' :: ds => (false, ds)
      | ds => (false, ds)
    if digits.isEmpty || !digits.all Char.isDigit then none
    else (natIn? 10 digits).map fun n =>
      (cs.takeWhile (!isMark ·), if negative then -(n : Int) else n)

/-- A fraction of digits, a point between digits, and an exponent. No zero leads the digits. -/
def decimal? (negative : Bool) (cs : List Char) : Option Binary64 := do
  let (mantissa, power) ← exponentOf? cs
  let whole := mantissa.takeWhile Char.isDigit
  let rest := mantissa.drop whole.length
  let fraction := rest.drop 1
  if whole.isEmpty || (whole.length > 1 && whole.head? == some '0') then none
  if !rest.isEmpty && (rest.head? != some '.' || fraction.isEmpty || !fraction.all Char.isDigit) then
    none
  match Binary64.ofDecimal negative (whole ++ fraction) (power - (fraction.length : Int)) with
  | .infinite _ => none
  | x => some x

def float? : Option Binary64 :=
  let (negative, body) := match cs with
    | '-' :: rest => (true, rest)
    | '+' :: rest => (false, rest)
    | rest => (false, rest)
  if body == ['i', 'n', 'f'] then some (.infinite negative)
  else if body == ['n', 'a', 'n'] then some .nan
  else (fractionDigits? false body).bind (decimal? negative)

/-! ### Dates and times -/

/-- The number that some digits in front spell, and what is behind them. -/
def digitsIn? (n : Nat) (cs : List Char) : Option (Nat × List Char) :=
  if cs.length < n then none
  else (natIn? 10 (cs.take n)).bind fun k =>
    if (cs.take n).all Char.isDigit then some (k, cs.drop n) else none

def after? (c : Char) : List Char → Option (List Char)
  | d :: rest => if d = c then some rest else none
  | [] => none

def isLeap (year : Nat) : Bool := year % 4 == 0 && (year % 100 != 0 || year % 400 == 0)

def daysIn (year month : Nat) : Nat :=
  if month = 2 then if isLeap year then 29 else 28
  else if [4, 6, 9, 11].contains month then 30
  else 31

def afterDate? : Option (List Char) := do
  let (year, cs) ← digitsIn? 4 cs
  let (month, cs) ← digitsIn? 2 (← after? '-' cs)
  let (day, cs) ← digitsIn? 2 (← after? '-' cs)
  if 1 ≤ month ∧ month ≤ 12 ∧ 1 ≤ day ∧ day ≤ daysIn year month then some cs else none

/-- What is behind a time of the day. A minute may have one second more. -/
def afterTime? : Option (List Char) := do
  let (hour, cs) ← digitsIn? 2 cs
  let (minute, cs) ← digitsIn? 2 (← after? ':' cs)
  let (second, cs) ← digitsIn? 2 (← after? ':' cs)
  if hour > 23 ∨ minute > 59 ∨ second > 60 then none
  match cs with
  | '.' :: rest =>
    let digits := rest.takeWhile Char.isDigit
    if digits.isEmpty then none else some (rest.drop digits.length)
  | cs => some cs

def afterDateTime? : Option (List Char) := do
  match ← afterDate? cs with
  | c :: rest => if ['T', 't', ' '].contains c then afterTime? rest else none
  | [] => none

/-- What is behind a distance from the prime meridian. -/
def afterZone? : List Char → Option (List Char)
  | c :: rest =>
    if c = 'Z' ∨ c = 'z' then some rest
    else if c = '+' ∨ c = '-' then do
      let (hours, cs) ← digitsIn? 2 rest
      let (minutes, cs) ← digitsIn? 2 (← after? ':' cs)
      if hours > 23 ∨ minutes > 59 then none else some cs
    else none
  | [] => none

def isMoment (kind : Moment) (text : String) : Bool :=
  let cs := text.toList
  let rest := match kind with
    | .localDate => afterDate? cs
    | .localTime => afterTime? cs
    | .localDateTime => afterDateTime? cs
    | .dateTime => (afterDateTime? cs).bind afterZone?
  rest == some []

/-! ### Tables -/

namespace Item

def entries : Item → List (String × Item)
  | .table entries => entries
  | _ => []

def isTable : Item → Bool
  | .table _ => true
  | _ => false

/-- Binds a name, in place of what it was bound to. -/
def bind (entries : List (String × Item)) (name : String) (i : Item) : List (String × Item) :=
  match entries with
  | [] => [(name, i)]
  | (n, old) :: rest => if n = name then (n, i) :: rest else (n, old) :: bind rest name i

/-- Changes what stands at the end of a path of names. Missing tables are made on the way, and
an array is entered at its last entry. -/
def update (act : Option Item → Item) : List String → Option Item → Item
  | [], old => act old
  | name :: path, old =>
    let within (i : Option Item) : Item :=
      let entries := (i.getD (.table [])).entries
      .table (bind entries name (update act path (entries.lookup name)))
    match old with
    | some (.array items) => .array (items.dropLast ++ [within items.getLast?])
    | old => within old

/-- A table header: what is there stays. -/
def opened : Option Item → Item
  | some i => i
  | none => .table []

/-- The header of an array of tables: one table more. -/
def extended : Option Item → Item
  | some (.array items) => .array (items ++ [.table []])
  | _ => .array [.table []]

end Item

mutual

def itemOf : Value → Except Fault Item
  | .text _ s => .ok (.text s)
  | .integer o digits => (integerOf o digits).map .integer
  | .float o digits =>
    match float? digits with
    | some x => .ok (.float x)
    | none => .error (.unexpected o)
  | .flag _ b => .ok (.flag b)
  | .moment o kind text => if isMoment kind text then .ok .moment else .error (.unexpected o)
  | .array vs => do return .array (← itemsOf vs)
  | .table _ pairs => do return .table (← entriesOf [] pairs)

def itemsOf : List Value → Except Fault (List Item)
  | [] => .ok []
  | v :: vs => do
    let i ← itemOf v
    return i :: (← itemsOf vs)

/-- The entries of a table between braces, on top of those before. -/
def entriesOf (done : List (String × Item)) :
    List (List KeyPart × Value) → Except Fault (List (String × Item))
  | [] => .ok done
  | (key, v) :: rest => do
    let i ← itemOf v
    let t := Item.update (fun _ => i) (key.map (·.name)) (some (.table done))
    entriesOf t.entries rest

end

structure Tabling where
  root : Item := .table []
  tracking : Tracking := {}
  header : List String := []

def Tabling.take (s : Tabling) (e : Expression) : Except Fault Tabling := do
  match s.tracking.add e with
  | none => throw .unplaced
  | some tracking =>
    let names (key : List KeyPart) : List String := key.map (·.name)
    match e with
    | .pair key v =>
      let i ← itemOf v
      let root := Item.update (fun _ => i) (s.header ++ names key) (some s.root)
      return { s with root, tracking }
    | .table key =>
      return { root := Item.update Item.opened (names key) (some s.root), tracking, header := names key }
    | .arrayTable key =>
      return { root := Item.update Item.extended (names key) (some s.root), tracking, header := names key }

def tableFrom (size : Nat) : Nat → Bool → Cursor → Tabling → Except Fault Item
  | 0, _, _, _ => .error .unplaced
  | fuel + 1, first, cursor, s => do
    let (e, cursor) ← (next (size + 1) first).run cursor
    match e with
    | none => return s.root
    | some e => tableFrom size fuel false cursor (← s.take e)

def readTable (bytes : List UInt8) : Except Fault Item :=
  tableFrom bytes.length (bytes.length + 2) true ⟨bytes, 0⟩ {}

end Schemata.Toml
