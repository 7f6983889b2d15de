import Schemata.Text.Quoted

/-!
The expressions of a TOML text: pairs of a key and a value, and the headers of tables. They are
read one by one, so a text is refused at its first fault in the order of its lines. Places are
byte offsets.
-/

namespace Schemata.Toml

open Text

inductive Fault where
  | unexpected (offset : Nat)
  /-- A fault without a place. -/
  | unplaced
deriving DecidableEq, Repr

structure KeyPart where
  name : String
  offset : Nat
deriving DecidableEq, Repr

inductive Moment where
  | dateTime
  | localDateTime
  | localDate
  | localTime
deriving DecidableEq, Repr

inductive Value where
  | text (offset : Nat) (s : String)
  | integer (offset : Nat) (digits : List Char)
  | float (offset : Nat) (digits : List Char)
  | flag (offset : Nat) (b : Bool)
  | moment (offset : Nat) (kind : Moment) (text : String)
  | array (entries : List Value)
  | table (offset : Nat) (pairs : List (List KeyPart × Value))

inductive Expression where
  | pair (key : List KeyPart) (value : Value)
  | table (key : List KeyPart)
  | arrayTable (key : List KeyPart)

structure Cursor where
  rest : List UInt8
  offset : Nat

abbrev Read := StateT Cursor (Except Fault)

def refuseAt {α : Type} (offset : Nat) : Read α := throw (.unexpected offset)

def refuse {α : Type} : Read α := do refuseAt (← get).offset

def toChar (b : UInt8) : Char := Char.ofNat b.toNat

/-- The byte in front as a character, none at the end. -/
def peek : Read (Option Char) := do return (← get).rest.head?.map toChar

def skip (n : Nat) : Read Unit := modify fun c => ⟨c.rest.drop n, c.offset + n⟩

def isWhite (b : UInt8) : Bool := b == 32 || b == 9

def takeWhile (p : UInt8 → Bool) : Read (List UInt8) := do
  let bs := (← get).rest.takeWhile p
  skip bs.length
  return bs

def skipWhite : Read Unit := discard (takeWhile isWhite)

def expect (c : Char) : Read Unit := do
  if (← peek) = some c then skip 1 else refuse

def follows (s : String) : Read Bool := do
  return (s.toUTF8.toList).isPrefixOf (← get).rest

/-- Bytes that no text may hold by themselves. -/
def isControl (b : UInt8) : Bool := b < 9 || b == 11 || b == 12 || (14 ≤ b && b < 32) || b == 127

/-- The character in front and how many bytes it takes; none when they spell none or one that no
text may hold. -/
def character? (bytes : List UInt8) : Option (Char × Nat) :=
  match bytes with
  | [] => none
  | b :: rest =>
    if isControl b then none
    else (Utf8.decodeFirst b rest).map fun (c, n) => (c, n + 1)

/-! ### Strings -/

/-- The characters of bytes that start at an offset; refused at the first that is none. -/
def charactersFrom (fuel : Nat) (offset : Nat) (bytes : List UInt8) (done : List Char) :
    Read (List Char) := do
  match fuel, bytes with
  | _, [] => return done.reverse
  | 0, _ => return done.reverse
  | fuel + 1, bytes =>
    match character? bytes with
    | some (c, n) => charactersFrom fuel (offset + n) (bytes.drop n) (c :: done)
    | none => refuseAt offset

/-- The rest of a literal string whose opening quote is behind. -/
def literalBody (fuel : Nat) (done : List Char) : Read (List Char) := do
  match fuel with
  | 0 => refuse
  | fuel + 1 =>
    match ← peek with
    | some '\'' =>
      skip 1
      return done.reverse
    | some '\n' | some '\r' | none => refuse
    | some _ =>
      match character? (← get).rest with
      | some (c, n) =>
        skip n
        literalBody fuel (c :: done)
      | none => refuse

/-- The number that hexadecimal digits spell, as a character. -/
def unicode (digits : Nat) (stop : Nat) : Read Char := do
  let c ← get
  let given := c.rest.take (min digits (stop - c.offset))
  if given.length < digits then refuse
  let step := fun (acc : Nat × Nat) (b : UInt8) => match hexValue? (toChar b) with
    | some d => pure (acc.1 * 16 + d, acc.2 + 1)
    | none => refuseAt (c.offset + acc.2)
  let (n, _) ← given.foldlM step (0, 0)
  if n > 0x10FFFF ∨ (0xD800 ≤ n ∧ n < 0xE000) then refuse
  skip digits
  return Char.ofNat n

/-- An escape whose backslash is behind; the string ends at offset `stop`. -/
def escape (stop : Nat) : Read Char := do
  let c := (← peek).getD ' '
  let plain := fun (d : Char) => do
    skip 1
    return d
  match c with
  | '"' => plain '"'
  | '\\' => plain '\\'
  | 'b' => plain '\x08'
  | 'f' => plain '\x0c'
  | 'n' => plain '\n'
  | 'r' => plain '\r'
  | 't' => plain '\t'
  | 'e' => plain '\x1b'
  | 'u' =>
    skip 1
    unicode 4 stop
  | 'U' =>
    skip 1
    unicode 8 stop
  | _ => refuse

/-- How long a basic string is from behind its opening quote up to the closing one. A backslash
takes the character after it along. -/
def basicLength (fuel : Nat) (n : Nat) (bytes : List UInt8) (offset : Nat) : Read Nat := do
  match fuel with
  | 0 => refuse
  | fuel + 1 =>
    match bytes with
    | [] => refuseAt (offset + n)
    | 34 :: _ => return n
    | 10 :: _ | 13 :: _ => refuseAt (offset + n)
    | 92 :: [] => refuseAt (offset + n)
    | 92 :: _ :: rest => basicLength fuel (n + 2) rest offset
    | _ :: rest => basicLength fuel (n + 1) rest offset

/-- The characters of a basic string up to an offset. -/
def basicBody (fuel : Nat) (stop : Nat) (done : List Char) : Read (List Char) := do
  match fuel with
  | 0 => refuse
  | fuel + 1 =>
    let c ← get
    if c.offset ≥ stop then return done.reverse
    if c.rest.head? = some 92 then
      skip 1
      let d ← escape stop
      basicBody fuel stop (d :: done)
    else
      match character? c.rest with
      | some (d, n) =>
        skip n
        basicBody fuel stop (d :: done)
      | none => refuse

def shortString : Read String := do
  let c ← get
  if c.rest.head? = some 39 then
    skip 1
    return String.ofList (← literalBody (c.rest.length + 1) [])
  else
    skip 1
    let n ← basicLength (c.rest.length + 1) 0 (c.rest.drop 1) (c.offset + 1)
    let text ← basicBody (n + 1) (c.offset + 1 + n) []
    skip 1
    return String.ofList text

/-- How many quotes end a long string, three of them being its delimiter: up to two more belong
to the text. -/
def closing (quote : UInt8) (offset : Nat) (bytes : List UInt8) : Read Nat := do
  let n := ((bytes.take 6).takeWhile (· == quote)).length
  if n ≥ 6 then refuseAt (offset + 2) else return n

/-- The length of a long string from behind its opening quotes, up to the closing ones and with
the quotes that belong to the text. -/
def longLength (fuel : Nat) (quote : UInt8) (n : Nat) (bytes : List UInt8) (offset : Nat) :
    Read Nat := do
  match fuel with
  | 0 => refuse
  | fuel + 1 =>
    match bytes with
    | [] => refuseAt (offset + n)
    | b :: rest =>
      if b = quote ∧ rest.take 2 = [quote, quote] then
        return n + (← closing quote (offset + n) bytes) - 3
      else if b = 92 ∧ quote = 34 then
        match rest with
        | [] => refuseAt (offset + n + 1)
        | _ :: rest => longLength fuel quote (n + 2) rest offset
      else if b = 13 then
        match rest with
        | [] => refuseAt (offset + n + 1)
        | 10 :: rest => longLength fuel quote (n + 2) rest offset
        | _ => refuseAt (offset + n)
      else if quote = 39 ∧ (character? bytes).isNone then refuseAt (offset + n)
      else longLength fuel quote (n + 1) rest offset

def isBlankByte (b : UInt8) : Bool := b == 32 || b == 9 || b == 10 || b == 13

/-- Whether only blanks stand between here and a line break. -/
def endsLine (bytes : List UInt8) : Bool :=
  (bytes.dropWhile fun b => isWhite b || b == 13).head? = some 10

/-- The characters of a long basic string up to an offset. A backslash at the end of a line takes
away all blanks and line breaks after it. -/
def longBody (fuel : Nat) (stop : Nat) (done : List Char) : Read (List Char) := do
  match fuel with
  | 0 => refuse
  | fuel + 1 =>
    let c ← get
    if c.offset ≥ stop then return done.reverse
    if c.rest.head? = some 92 then
      let inside := (c.rest.take (stop - c.offset)).drop 1
      if endsLine inside then
        skip (1 + (inside.takeWhile isBlankByte).length)
        longBody fuel stop done
      else
        skip 1
        let d ← escape (stop + 3)
        longBody fuel stop (d :: done)
    else
      match character? c.rest with
      | some (d, n) =>
        skip n
        longBody fuel stop (d :: done)
      | none => refuse

/-- A string in triple quotes; a line break right behind the opening ones is dropped. -/
def longString (quote : UInt8) : Read String := do
  let c ← get
  let n ← longLength (c.rest.length + 1) quote 0 (c.rest.drop 3) (c.offset + 3)
  let stop := c.offset + 3 + n
  skip 3
  let inside := (← get).rest
  if inside.head? = some 10 then skip 1
  else if inside.take 2 = [13, 10] then skip 2
  let text ←
    if quote = 39 then do
      let here ← get
      let raw := here.rest.take (stop - here.offset)
      skip raw.length
      charactersFrom (raw.length + 1) here.offset raw []
    else longBody (n + 1) stop []
  skip 3
  return String.ofList text

/-! ### Keys -/

def isKeyByte (b : UInt8) : Bool :=
  (48 ≤ b && b ≤ 57) || (65 ≤ b && b ≤ 90) || (97 ≤ b && b ≤ 122) || b == 45 || b == 95

def keyPart : Read KeyPart := do
  let c ← get
  match c.rest.head? with
  | some 39 | some 34 => return ⟨← shortString, c.offset + 1⟩
  | _ =>
    let bytes ← takeWhile isKeyByte
    if bytes.isEmpty then refuse
    return ⟨String.ofList (bytes.map toChar), c.offset⟩

def keyRest (fuel : Nat) (done : List KeyPart) : Read (List KeyPart) := do
  match fuel with
  | 0 => return done.reverse
  | fuel + 1 =>
    skipWhite
    if (← peek) = some '.' then
      skip 1
      skipWhite
      let part ← keyPart
      keyRest fuel (part :: done)
    else return done.reverse

def key : Read (List KeyPart) := do
  let first ← keyPart
  keyRest ((← get).rest.length + 1) [first]

/-! ### Numbers, dates and times -/

def isDigitByte (b : UInt8) : Bool := 48 ≤ b && b ≤ 57

/-- Whether a date or a time stands in front: four digits and a dash, or two and a colon. -/
def startsMoment (bytes : List UInt8) : Bool :=
  bytes.length ≥ 3 &&
    match bytes.takeWhile isDigitByte with
    | [_, _] => bytes[2]? == some 58
    | [_, _, _, _] => bytes[4]? == some 45
    | _ => false

/-- How many bytes of a date or time stand here; one blank may be inside when a digit follows. -/
def momentLength (fuel : Nat) (n : Nat) (spaced : Bool) (bytes : List UInt8) : Nat :=
  match fuel, bytes with
  | fuel + 1, b :: rest =>
    let c := toChar b
    if isDigitByte b || ['-', 'T', 't', ':', '.', '+', 'Z', 'z'].contains c then
      momentLength fuel (n + 1) spaced rest
    else if c == ' ' && !spaced && rest.head?.any isDigitByte then
      match rest with
      | _ :: [] => n + 2
      | _ :: _ :: more => momentLength fuel (n + 3) true more
      | [] => n
    else n
  | _, _ => n

def momentKind (text : List Char) : Moment :=
  let hasTime := text.any fun c => ['T', 't', ':', '.', ' '].contains c
  let hasDate := text.contains '-'
  let hasZone := text.any (fun c => ['+', 'Z', 'z'].contains c) || (text.drop 8).contains '-'
  if !hasTime then .localDate
  else if !hasDate then .localTime
  else if hasZone then .dateTime
  else .localDateTime

def moment : Read Value := do
  let c ← get
  let n := momentLength (c.rest.length + 1) 0 false c.rest
  let text := (c.rest.take n).map toChar
  skip n
  return .moment c.offset (momentKind text) (String.ofList text)

def isBaseByte (base : Char) (b : UInt8) : Bool :=
  let c := toChar b
  c == '_' || match base with
    | 'x' => (hexValue? c).isSome
    | 'o' => '0' ≤ c && c ≤ '7'
    | _ => c == '0' || c == '1'

/-- The bytes of a decimal number, and whether it has a point or an exponent. A word for infinity
or for no number may end it. -/
def decimalBytes (fuel : Nat) (done : List UInt8) (float : Bool) : Read (List UInt8 × Bool) := do
  match fuel with
  | 0 => return (done.reverse, float)
  | fuel + 1 =>
    match (← get).rest with
    | [] => return (done.reverse, float)
    | b :: _ =>
      let c := toChar b
      if isDigitByte b || c == '+' || c == '-' || c == '_' then
        skip 1
        decimalBytes fuel (b :: done) float
      else if c == '.' || c == 'e' || c == 'E' then
        skip 1
        decimalBytes fuel (b :: done) true
      else if c == 'i' || c == 'n' then
        let word := if c == 'i' then "inf" else "nan"
        if ← follows word then
          skip 3
          return (done.reverse ++ word.toUTF8.toList, true)
        else refuse
      else return (done.reverse, float)

def number : Read Value := do
  let c ← get
  let second := (c.rest[1]?.map toChar).getD ' '
  if c.rest.length > 2 && c.rest.head? == some 48 && !(['.', 'e', 'E'].contains second) then
    if ['x', 'o', 'b'].contains second then
      let digits := (c.rest.drop 2).takeWhile (isBaseByte second)
      skip (2 + digits.length)
      return .integer c.offset ('0' :: second :: digits.map toChar)
    else
      skip 1
      return .integer c.offset ['0']
  else
    let (bytes, float) ← decimalBytes (c.rest.length + 1) [] false
    if bytes.isEmpty then refuse
    return if float then .float c.offset (bytes.map toChar) else .integer c.offset (bytes.map toChar)

/-! ### Comments and line breaks -/

def commentBody (fuel : Nat) : Read Unit := do
  match fuel with
  | 0 => return
  | fuel + 1 =>
    match (← get).rest with
    | [] | 10 :: _ => return
    | 13 :: rest => if rest.head? = some 10 then skip 1 else refuse
    | bytes =>
      match character? bytes with
      | some (_, n) =>
        skip n
        commentBody fuel
      | none => refuse

def comment : Read Unit := do
  skip 1
  commentBody ((← get).rest.length + 1)

def newline : Read Unit := do
  match (← get).rest with
  | 10 :: _ => skip 1
  | 13 :: 10 :: _ => skip 2
  | _ => refuse

/-- Passes blanks, comments and line breaks inside an array. -/
def skipBetween (fuel : Nat) : Read Unit := do
  match fuel with
  | 0 => return
  | fuel + 1 =>
    skipWhite
    if (← peek) = some '#' then comment
    match ← peek with
    | some '\n' | some '\r' =>
      newline
      skipBetween fuel
    | _ => return

/-! ### Values -/

mutual

def value (fuel : Nat) : Read Value := do
  match fuel with
  | 0 => refuse
  | fuel + 1 =>
    let c ← get
    match ← peek with
    | none => refuse
    | some '"' =>
      if ← follows "\"\"\"" then return .text c.offset (← longString 34)
      else return .text c.offset (← shortString)
    | some '\'' =>
      if ← follows "'''" then return .text c.offset (← longString 39)
      else return .text c.offset (← shortString)
    | some 't' =>
      if ← follows "true" then
        skip 4
        return .flag c.offset true
      else refuse
    | some 'f' =>
      if ← follows "false" then
        skip 5
        return .flag c.offset false
      else refuse
    | some '[' =>
      skip 1
      return .array (← entries fuel c.offset true [])
    | some '{' =>
      skip 1
      return .table c.offset (← pairs fuel true [])
    | some 'i' =>
      if ← follows "inf" then
        skip 3
        return .float c.offset ['i', 'n', 'f']
      else refuse
    | some 'n' =>
      if ← follows "nan" then
        skip 3
        return .float c.offset ['n', 'a', 'n']
      else refuse
    | some _ => if startsMoment c.rest then moment else number

/-- The entries of an array from one on; `opened` is where it began. -/
def entries (fuel : Nat) (opened : Nat) (first : Bool) (done : List Value) :
    Read (List Value) := do
  match fuel with
  | 0 => refuse
  | fuel + 1 =>
    let size := (← get).rest.length
    if size = 0 then refuse
    skipBetween (size + 1)
    match ← peek with
    | none => refuseAt opened
    | some ']' =>
      skip 1
      return done.reverse
    | some ',' =>
      if first then refuse
      skip 1
      skipBetween (size + 1)
      if (← peek) = some ']' then
        skip 1
        return done.reverse
      let v ← value fuel
      skipBetween (size + 1)
      entries fuel opened false (v :: done)
    | some _ =>
      if !first then refuse
      let v ← value fuel
      skipBetween (size + 1)
      entries fuel opened false (v :: done)

/-- The pairs of an inline table from one on. -/
def pairs (fuel : Nat) (first : Bool) (done : List (List KeyPart × Value)) :
    Read (List (List KeyPart × Value)) := do
  match fuel with
  | 0 => refuse
  | fuel + 1 =>
    let before := (← get).offset
    if (← peek).isNone then refuse
    skipWhite
    match ← peek with
    | none => refuseAt before
    | some '}' =>
      skip 1
      return done.reverse
    | some _ =>
      if !first then
        expect ','
        skipWhite
      let p ← pair fuel
      pairs fuel false (p :: done)

def pair (fuel : Nat) : Read (List KeyPart × Value) := do
  match fuel with
  | 0 => refuse
  | fuel + 1 =>
    let k ← key
    skipWhite
    expect '='
    skipWhite
    let v ← value fuel
    return (k, v)

end

def header : Read Expression := do
  skip 1
  if (← peek) = some '[' then
    skip 1
    skipWhite
    let k ← key
    skipWhite
    expect ']'
    expect ']'
    return .arrayTable k
  else
    skipWhite
    let k ← key
    skipWhite
    expect ']'
    return .table k

/-- The next expression, none when there is no more; `first` tells that none came before. -/
def next (fuel : Nat) (first : Bool) : Read (Option Expression) := do
  match fuel with
  | 0 => return none
  | fuel + 1 =>
    if (← get).rest.isEmpty then return none
    if !first then newline
    if (← get).rest.isEmpty then return none
    skipWhite
    let size := (← get).rest.length
    match ← peek with
    | none => return none
    | some '#' =>
      comment
      next fuel false
    | some '\n' | some '\r' => next fuel false
    | some c =>
      let e ← if c == '[' then header else do
        let (k, v) ← pair (2 * size + 8)
        pure (.pair k v)
      skipWhite
      if (← peek) = some '#' then comment
      return some e

end Schemata.Toml
