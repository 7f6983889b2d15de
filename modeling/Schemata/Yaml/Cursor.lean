import Schemata.Text.Utf8
import Schemata.Yaml.Token

/-!
The characters of a YAML text and the state of reading them. Bytes are UTF-8, or UTF-16 when a
byte order mark says so.
-/

namespace Schemata.Yaml

open Text

/-- Characters that may stand in a text. -/
def isAllowed (c : Char) : Bool :=
  let n := c.toNat
  n == 9 || n == 10 || n == 13 || (0x20 ≤ n && n ≤ 0x7E) || n == 0x85 ||
    (0xA0 ≤ n && n ≤ 0xFFFD) || 0x10000 ≤ n

/-- Characters of UTF-16 units; a surrogate without its partner is none. -/
def decodeUnits : List Nat → List (Option Char)
  | [] => []
  | [u] => [if 0xD800 ≤ u ∧ u ≤ 0xDFFF then none else some (Char.ofNat u)]
  | u :: v :: rest =>
    if 0xD800 ≤ u ∧ u ≤ 0xDFFF then
      if u < 0xDC00 ∧ 0xDC00 ≤ v ∧ v ≤ 0xDFFF then
        some (Char.ofNat (0x10000 + (u - 0xD800) * 0x400 + (v - 0xDC00))) :: decodeUnits rest
      else none :: decodeUnits (v :: rest)
    else some (Char.ofNat u) :: decodeUnits (v :: rest)

/-- Pairs of bytes as numbers, the high byte first or last. -/
def unitsOf (highFirst : Bool) : List UInt8 → List Nat
  | a :: b :: rest =>
    (if highFirst then a.toNat * 256 + b.toNat else b.toNat * 256 + a.toNat) ::
      unitsOf highFirst rest
  | _ => []

/-- The characters of a text, `none` where bytes spell none or one that may not stand there. -/
def charactersOf (bytes : List UInt8) : List (Option Char) :=
  let decoded := match bytes with
    | 0xFF :: 0xFE :: rest => decodeUnits (unitsOf false rest)
    | 0xFE :: 0xFF :: rest => decodeUnits (unitsOf true rest)
    | 0xEF :: 0xBB :: 0xBF :: rest => Utf8.decode rest
    | _ => Utf8.decode bytes
  decoded.map fun
    | some c => if isAllowed c then some c else none
    | none => none

/-- Texts are taken in by portions of this many bytes. -/
def portion : Nat := 512

/-- The first character of the portion that holds a bad character: no character from there on
can be looked at. -/
def limitOf (characters : List (Option Char)) : Option Nat :=
  if characters.all (·.isSome) then none
  else
    let good := characters.takeWhile (·.isSome)
    let bytes := good.foldl (fun n c => n + Utf8.width (c.getD ' ')) 0
    let start := bytes - bytes % portion
    let step := fun (acc : Nat × Nat) (c : Option Char) =>
      if acc.2 < start then (acc.1 + 1, acc.2 + Utf8.width (c.getD ' ')) else acc
    some (good.foldl step (0, 0)).1

/-- A place where a key without a question mark may have begun. -/
structure SimpleKey where
  possible : Bool := false
  /-- Nothing but a key can stand here. -/
  required : Bool := false
  tokenNumber : Nat := 0
  mark : Mark := {}

/-- The state of turning characters into tokens. -/
structure Lexing where
  rest : List Char
  limit : Option Nat := none
  mark : Mark := {}
  started : Bool := false
  queue : List Token := []
  taken : Nat := 0
  /-- One entry a level of brackets, innermost first. -/
  keys : List SimpleKey := []
  keyAllowed : Bool := false
  /-- The column of the block being read, minus one outside all. -/
  indent : Int := -1
  indents : List Int := []
  flow : Nat := 0

abbrev Lexer := StateT Lexing (Except Fault)

/-- The bytes of an empty text are read as one empty line. -/
def Lexing.ofBytes (bytes : List UInt8) : Lexing :=
  let characters := charactersOf (if bytes.isEmpty then [10] else bytes)
  { rest := characters.map (·.getD Utf8.replacement), limit := limitOf characters }

def isBreak (c : Char) : Bool :=
  c == '\n' || c == '\r' || c.toNat == 0x85 || c.toNat == 0x2028 || c.toNat == 0x2029

def isBlank (c : Char) : Bool := c == ' ' || c == '\t'

def endMark : Char := '\x00'

def isEnd (c : Char) : Bool := c == endMark

def isBreakOrEnd (c : Char) : Bool := isBreak c || isEnd c

def isBlankOrEnd (c : Char) : Bool := isBlank c || isBreakOrEnd c

/-- Letters of names: ASCII letters, digits, the underscore and the dash. -/
def isWordChar (c : Char) : Bool :=
  ('0' ≤ c && c ≤ '9') || ('A' ≤ c && c ≤ 'Z') || ('a' ≤ c && c ≤ 'z') || c == '_' || c == '-'

/-- Fails when the character at a distance cannot be looked at. -/
def require (ahead : Nat) : Lexer Unit := do
  let s ← get
  match s.limit with
  | some limit => if s.mark.index + ahead ≥ limit then throw ⟨0⟩
  | none => return

def peekAt (k : Nat) : Lexer Char := do
  require k
  return (← get).rest.getD k endMark

def peek : Lexer Char := peekAt 0

def skip : Lexer Unit :=
  modify fun s =>
    { s with
      rest := s.rest.tail
      mark := ⟨s.mark.index + 1, s.mark.line, s.mark.column + 1⟩ }

def skipLine : Lexer Unit :=
  modify fun s =>
    match s.rest with
    | '\r' :: '\n' :: rest =>
      { s with rest, mark := ⟨s.mark.index + 2, s.mark.line + 1, 0⟩ }
    | c :: rest =>
      if isBreak c then { s with rest, mark := ⟨s.mark.index + 1, s.mark.line + 1, 0⟩ } else s
    | [] => s

/-- Takes one line break; all but the separators of lines and paragraphs become a newline. -/
def takeLine : Lexer (List Char) := do
  let c ← peek
  if isBreak c then
    skipLine
    return [if c.toNat == 0x2028 || c.toNat == 0x2029 then c else '\n']
  else return []

/-- Takes the characters in front that satisfy a condition, which no line break does. -/
def takeWhile (p : Char → Bool) : Lexer (List Char) := do
  let s ← get
  let cs := s.rest.takeWhile p
  require cs.length
  set { s with
    rest := s.rest.drop cs.length
    mark := ⟨s.mark.index + cs.length, s.mark.line, s.mark.column + cs.length⟩ }
  return cs

def skipWhile (p : Char → Bool) : Lexer Unit := discard (takeWhile p)

/-- Fails with a fault of a token that began at a mark. -/
def refuse {α : Type} (began : Mark) : Lexer α := do
  throw (Fault.ofSpelling began (← get).mark)

/-- Whether three equal characters and then blank stand at the beginning of a line. -/
def atMarker (c : Char) : Lexer Bool := do
  require 3
  let s ← get
  return s.mark.column == 0 && s.rest.getD 0 endMark == c && s.rest.getD 1 endMark == c &&
    s.rest.getD 2 endMark == c && isBlankOrEnd (s.rest.getD 3 endMark)

def atDocumentMarker : Lexer Bool := do
  return (← atMarker '-') || (← atMarker '.')

end Schemata.Yaml
