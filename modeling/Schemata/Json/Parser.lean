import Schemata.Document.Tree
import Schemata.Text.Quoted

/-!
Reading JSON bytes as a document tree. The record being read says which fields there are and
what each holds, so a wrong type is found where it stands and before anything after it is looked
at. What follows the first value is not read.

Places are offsets into the decoded bytes: inside a string an escape counts for the bytes of the
character it spells, and a byte that spells nothing counts for the replacement character.
-/

namespace Schemata.Json

open Text Data Document

/-- Why bytes are no document tree. -/
inductive Fault where
  | unexpected (offset : Nat)
  | unknownField
  | noValue
deriving DecidableEq, Repr

/-- Where reading stands: the bytes that are left and the offset of the first of them. -/
structure Cursor where
  rest : List UInt8
  offset : Nat

abbrev Read := StateT Cursor (Except Fault)

def refuse {α : Type} : Read α := do throw (.unexpected (← get).offset)

/-- The byte in front as a character; a zero byte ends the text and stands for its end. -/
def peek : Read Char := do
  return ((← get).rest.head?.map fun b => Char.ofNat b.toNat).getD '\x00'

def advance : Read Unit :=
  modify fun c => ⟨c.rest.tail, c.offset + 1⟩

def isSeparator (b : UInt8) : Bool := b == 32 || b == 10 || b == 13 || b == 9

def skipBlanks : Read Char := do
  modify fun c =>
    ⟨c.rest.dropWhile isSeparator, c.offset + (c.rest.takeWhile isSeparator).length⟩
  peek

def word : List Char → Read Unit
  | [] => return
  | c :: cs => do
    if (← peek) = c then
      advance
      word cs
    else refuse

variable (bytes : List UInt8)

/-- The number that four bytes spell in hexadecimal; a byte that is no digit counts as zero. -/
def hexNumber : Nat :=
  bytes.foldl (fun n b => n * 16 + (hexValue? (Char.ofNat b.toNat)).getD 0) 0

def isSurrogate (n : Nat) : Bool := 0xD800 ≤ n && n ≤ 0xDFFF

/-- The character of a `\u` escape whose digits stand in front, and the bytes after it. A
surrogate without its partner spells the replacement character. -/
def unicodeEscape : Option (Char × List UInt8) :=
  if bytes.length < 4 then none
  else
    let high := hexNumber (bytes.take 4)
    let rest := bytes.drop 4
    if isSurrogate high then
      match rest with
      | 92 :: 117 :: more =>
        let low := hexNumber (more.take 4)
        if more.length ≥ 4 ∧ high < 0xDC00 ∧ 0xDC00 ≤ low ∧ low ≤ 0xDFFF then
          some (Char.ofNat (0x10000 + (high - 0xD800) * 0x400 + (low - 0xDC00)), more.drop 4)
        else some (Utf8.replacement, rest)
      | _ => some (Utf8.replacement, rest)
    else some (Char.ofNat high, rest)

/-- The character of an escape of one letter. -/
def letterEscape? : UInt8 → Option Char
  | 34 => some '"'
  | 92 => some '\\'
  | 47 => some '/'
  | 98 => some '\x08'
  | 102 => some '\x0c'
  | 110 => some '\n'
  | 114 => some '\r'
  | 116 => some '\t'
  | _ => none

/-- The rest of a string whose opening quote is behind; `fuel` bounds its length. The characters
read so far come in reverse. -/
def stringBody (fuel : Nat) (done : List Char) : Read String := do
  match fuel with
  | 0 => refuse
  | fuel + 1 =>
    let c ← get
    match c.rest with
    | [] => refuse
    | 0 :: _ => refuse
    | 34 :: rest =>
      set (Cursor.mk rest (c.offset + 1))
      return String.ofList done.reverse
    | 92 :: rest =>
      match rest with
      | 117 :: rest =>
        match unicodeEscape rest with
        | none => throw (.unexpected (c.offset + 1))
        | some (ch, rest) =>
          set (Cursor.mk rest (c.offset + Utf8.width ch))
          stringBody fuel (ch :: done)
      | b :: rest =>
        match letterEscape? b with
        | none => throw (.unexpected (c.offset + 1))
        | some ch =>
          set (Cursor.mk rest (c.offset + 1))
          stringBody fuel (ch :: done)
      | [] => throw (.unexpected (c.offset + 1))
    | b :: rest =>
      match Utf8.decodeFirst b rest with
      | some (ch, n) =>
        if ch = Utf8.replacement then
          set (Cursor.mk rest (c.offset + Utf8.width ch))
          stringBody fuel (Utf8.replacement :: done)
        else
          set (Cursor.mk (rest.drop n) (c.offset + n + 1))
          stringBody fuel (ch :: done)
      | none =>
        set (Cursor.mk rest (c.offset + Utf8.width Utf8.replacement))
        stringBody fuel (Utf8.replacement :: done)

/-- A string whose opening quote stands in front. -/
def string : Read String := do
  advance
  stringBody ((← get).rest.length + 1) []

def isDigitByte (b : UInt8) : Bool := 48 ≤ b && b ≤ 57

def digits : Read (List UInt8) := do
  let c ← get
  let ds := c.rest.takeWhile isDigitByte
  set (Cursor.mk (c.rest.dropWhile isDigitByte) (c.offset + ds.length))
  return ds

/-- A number of at most nineteen digits; what exceeds 64 bits wraps around. -/
def numberOf (negative : Bool) (ds : List UInt8) : Read Int64 := do
  if ds.length > 19 then refuse
  let n : Nat := ds.foldl (fun n b => n * 10 + (b.toNat - 48)) 0
  return Int64.ofInt (if negative then -(n : Int) else n)

/-- An integer, or what was there before when the value is null. -/
def number (old : Tree) : Read Tree := do
  match ← skipBlanks with
  | '-' =>
    advance
    let ds ← digits
    if ds.isEmpty then refuse
    return .number (← numberOf true ds)
  | '0' =>
    advance
    return .number 0
  | 'n' =>
    word ['n', 'u', 'l', 'l']
    return old
  | c => if '1' ≤ c ∧ c ≤ '9' then return .number (← numberOf false (← digits)) else refuse

def text (old : Tree) : Read Tree := do
  match ← skipBlanks with
  | '"' => return .text (← string)
  | 'n' =>
    word ['n', 'u', 'l', 'l']
    return old
  | _ => refuse

def flag (old : Tree) : Read Tree := do
  match ← skipBlanks with
  | 't' =>
    word ['t', 'r', 'u', 'e']
    return .flag true
  | 'f' =>
    word ['f', 'a', 'l', 's', 'e']
    return .flag false
  | 'n' =>
    word ['n', 'u', 'l', 'l']
    return old
  | _ => refuse

/-- A field name. Records of few fields point at the place right behind the comma when something
else than a name stands there. -/
def key (r : Record) : Read String := do
  let before := (← get).offset
  match ← skipBlanks with
  | '"' => string
  | c =>
    if r = .item then
      if c = 'n' then
        word ['n', 'u', 'l', 'l']
        return ""
      else refuse
    else if c = '\x00' then refuse
    else throw (.unexpected before)

def lowerAscii (s : String) : String := s.map Char.toLower

/-- The field a name stands for. Records of few fields do not tell capital letters apart. -/
def fieldOf? (r : Record) (name : String) : Option (String × Shape Record) :=
  let name := if r = .item then name else lowerAscii name
  (r.fields.lookup name).map (name, ·)

mutual

/-- A value of a shape; `old` is what a null keeps and what a record is read over. -/
def value (fuel : Nat) (shape : Shape Record) (old : Tree) : Read Tree := do
  match fuel with
  | 0 => refuse
  | fuel + 1 =>
    match shape with
    | .text => text old
    | .flag => flag old
    | .number => number old
    | .optional shape =>
      if (← skipBlanks) = 'n' then
        word ['n', 'u', 'l', 'l']
        return .none
      else value fuel shape old
    | .list entry =>
      match ← skipBlanks with
      | 'n' =>
        word ['n', 'u', 'l', 'l']
        return .none
      | '[' =>
        advance
        if (← skipBlanks) = ']' then
          advance
          return .list []
        else entriesFrom fuel entry old.entries []
      | _ => refuse
    | .record r =>
      match ← skipBlanks with
      | 'n' =>
        word ['n', 'u', 'l', 'l']
        return old
      | '{' =>
        advance
        if (← skipBlanks) = '}' then
          advance
          return .record old.fields
        else fieldsFrom fuel r old.fields
      | _ => refuse
    | .dict _ => refuse

def fieldsFrom (fuel : Nat) (r : Record) (fields : List (String × Tree)) : Read Tree := do
  match fuel with
  | 0 => refuse
  | fuel + 1 =>
    let name ← key r
    if (← skipBlanks) ≠ ':' then refuse
    advance
    match fieldOf? r name with
    | none => throw .unknownField
    | some (name, shape) =>
      let t ← value fuel shape ((fields.lookup name).getD (.fresh shape))
      let fields := Tree.setField fields name t
      match ← skipBlanks with
      | '}' =>
        advance
        return .record fields
      | ',' =>
        advance
        fieldsFrom fuel r fields
      | _ => refuse

/-- The entries of a list from one on; the ones before it come in reverse, and `old` has what
was there before from the same place on. -/
def entriesFrom (fuel : Nat) (shape : Shape Record) (old : List Tree) (done : List Tree) :
    Read Tree := do
  match fuel with
  | 0 => refuse
  | fuel + 1 =>
    let t ← value fuel shape (old.headD (.fresh shape))
    match ← skipBlanks with
    | ']' =>
      advance
      return .list (t :: done).reverse
    | ',' =>
      advance
      entriesFrom fuel shape old.tail (t :: done)
    | _ => refuse

end

def documentTree (fuel : Nat) : Read Tree := do
  match ← skipBlanks with
  | '\x00' => throw .noValue
  | ',' | ':' =>
    advance
    value fuel (.record .document) (.record [])
  | _ => value fuel (.record .document) (.record [])

def parse : Except Fault Tree :=
  ((documentTree (4 * bytes.length + 8)).run ⟨bytes, 0⟩).map (·.1)

/-- Line and column of a byte, both from one; an offset past the end stands for the end. -/
def position (offset : Nat) : Nat × Nat :=
  let step := fun (place : Nat × Nat) (b : UInt8) =>
    if b = 10 then (place.1 + 1, 1) else (place.1, place.2 + 1)
  (bytes.take offset).foldl step (1, 1)

end Schemata.Json
