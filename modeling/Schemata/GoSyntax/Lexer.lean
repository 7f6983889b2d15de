import Schemata.GoSyntax.Token
import Schemata.Text.Quoted

/-!
Go source as tokens. A line end behind a token that can end a statement stands for a semicolon.
Columns count bytes. What cannot be read leaves a fault behind and reading goes on, so every text
has tokens, and the last of them is the end of the file.
-/

namespace Schemata.GoSyntax

open Text

structure Spot where
  char : Char
  place : Place
  width : Nat
  /-- Whether the character may stand nowhere at all. -/
  isWrong : Bool := false

def byteOrderMark : Char := '\uFEFF'

/-- The characters of a text, each with its place. A byte order mark may only come first. -/
def spots (isFirst : Bool) (place : Place) : List (Option Char) → List Spot
  | [] => []
  | c :: cs =>
    let char := c.getD Utf8.replacement
    let width := (c.map Utf8.width).getD 1
    let isWrong := c.isNone || char == '\x00' || (char == byteOrderMark && !isFirst)
    let next : Place :=
      if char == '\n' then ⟨place.line + 1, 1⟩ else { place with column := place.column + width }
    { char, place, width, isWrong } :: spots false next cs

variable (ss : List Spot)

/-- The place behind the last character. A final line end starts no line. -/
def endOf : Place :=
  match ss.getLast? with
  | none => ⟨1, 1⟩
  | some s => { s.place with column := s.place.column + s.width }

def textOf : String := String.ofList (ss.map (·.char))

def isLetter (c : Char) : Bool :=
  c.isAlpha || c == '_' || (c.toNat ≥ 0x80 && Text.isLetter c)

def isDigit (c : Char) : Bool :=
  c.isDigit || (c.toNat ≥ 0x80 && Text.isDigit c)

structure Scanned where
  kind : TokenKind
  text : String
  rest : List Spot
  faults : List Place := []

/-- The places of the characters that come into view when reading moves from one list to a later
part of it and may stand nowhere. -/
def wrongPlaces (before after : List Spot) : List Place :=
  (((before.drop 1).take (before.length - after.length)).filter (·.isWrong)).map (·.place)

/-! ### Literals in quotes -/

/-- How the next character of a literal is read. -/
inductive QuotedMode where
  | plain
  /-- Behind a backslash. -/
  | escape
  /-- Some digits of a numbered character are still to come. -/
  | digits (left base value limit : Nat) (start : Place)

structure QuotedScan where
  rest : List Spot
  faults : List Place := []
  isClosed : Bool := false
  isValid : Bool := true
  count : Nat := 0

namespace QuotedScan

def spoil (q : QuotedScan) (place : Place) : QuotedScan :=
  { q with faults := place :: q.faults, isValid := false }

def counted (q : QuotedScan) : QuotedScan := { q with count := q.count + 1 }

end QuotedScan

/-- The digits behind a backslash: how many, their base, and the greatest value. -/
def escapeDigits? : Char → Option (Nat × Nat × Nat)
  | 'x' => some (2, 16, 255)
  | 'u' => some (4, 16, 0x10FFFF)
  | 'U' => some (8, 16, 0x10FFFF)
  | _ => none

def afterDigit (left base value limit : Nat) (start : Place) : QuotedMode × List Place :=
  if left ≤ 1 then
    (.plain, if value > limit || (0xD800 ≤ value && value < 0xE000) then [start] else [])
  else (.digits (left - 1) base value limit start, [])

/-- The inside of a literal up to its closing quote; it may not go over the line end. -/
def quotedBody (quote : Char) (stop : Place) : QuotedMode → List Spot → QuotedScan
  | .plain, [] => { rest := [] }
  | _, [] => ({ rest := [] } : QuotedScan).spoil stop
  | mode, s :: ss =>
    let plain : Unit → QuotedScan := fun _ =>
      if s.char == '\n' then { rest := s :: ss }
      else if s.char == quote then { rest := ss, isClosed := true }
      else if s.char == '\\' then (quotedBody quote stop .escape ss).counted
      else (quotedBody quote stop .plain ss).counted
    let digit (left base value limit : Nat) (start : Place) : QuotedScan :=
      match hexValue? s.char with
      | some d =>
        if d < base then
          let (mode, faults) := afterDigit left base (value * base + d) limit start
          let q := quotedBody quote stop mode ss
          faults.foldl QuotedScan.spoil q
        else (plain ()).spoil s.place
      | none => (plain ()).spoil s.place
    match mode with
    | .plain => plain ()
    | .escape =>
      if "abfnrtv\\".toList.contains s.char || s.char == quote then
        quotedBody quote stop .plain ss
      else if '0' ≤ s.char ∧ s.char ≤ '7' then digit 3 8 0 255 s.place
      else match escapeDigits? s.char with
        | some (left, base, limit) =>
          quotedBody quote stop (.digits left base 0 limit s.place) ss
        | none => (plain ()).spoil s.place
    | .digits left base value limit start => digit left base value limit start

/-- A literal in double quotes; the list starts with the quote. -/
def scanString (stop : Place) (ss : List Spot) (start : Place) : Scanned :=
  let q := quotedBody '"' stop .plain (ss.drop 1)
  let faults := if q.isClosed then q.faults else q.faults ++ [start]
  { kind := .string, text := textOf (ss.take (ss.length - q.rest.length)), rest := q.rest, faults }

/-- A literal in single quotes stands for one character. -/
def scanRune (stop : Place) (ss : List Spot) (start : Place) : Scanned :=
  let q := quotedBody '\'' stop .plain (ss.drop 1)
  let isRight := !q.isValid || (q.isClosed && q.count == 1)
  let faults := if isRight then q.faults else q.faults ++ [start]
  { kind := .rune, text := textOf (ss.take (ss.length - q.rest.length)), rest := q.rest, faults }

/-- A literal in back quotes holds anything but a back quote; carriage returns are left out. -/
def scanRawString (start : Place) : Scanned :=
  let (body, rest) := (ss.drop 1).span (·.char != '\x60')
  let text := (ss.take 1 ++ body ++ rest.take 1).filter (·.char != '\r')
  { kind := .string, text := textOf text, rest := rest.drop 1,
    faults := if rest.isEmpty then [start] else [] }

/-! ### Numbers -/

def isHexDigit (c : Char) : Bool := (hexValue? c).isSome

/-- Digits and the marks that separate them. -/
def scanDigits (base : Nat) (ss : List Spot) : List Spot × List Spot :=
  ss.span fun s => s.char == '_' || (if base ≤ 10 then s.char.isDigit else isHexDigit s.char)

def hasDigit : Bool := ss.any (·.char != '_')

/-- The class of a character when separators are checked: a digit, a separator, or neither. -/
inductive DigitClass where
  | digit
  | separator
  | neither
deriving DecidableEq

/-- The place of the first separator that does not stand between digits. -/
def misplacedSeparator? (hex : Bool) (previous : DigitClass) (last : Place) :
    List Spot → Option Place
  | [] => if previous = .separator then some last else none
  | s :: ss =>
    if s.char == '_' then
      if previous = .digit then misplacedSeparator? hex .separator s.place ss else some s.place
    else if s.char.isDigit || (hex && isHexDigit s.char) then
      misplacedSeparator? hex .digit s.place ss
    else if previous = .separator then some last
    else misplacedSeparator? hex .neither s.place ss

def lowerAscii (c : Char) : Char := if 'A' ≤ c ∧ c ≤ 'Z' then Char.ofNat (c.toNat + 32) else c

/-- The base that the start of a number gives, its mark, and how many characters tell it. A zero
without a letter is both the mark and a digit. -/
def numberBase : List Spot → Nat × Option Char × Nat
  | a :: b :: _ =>
    if a.char == '0' then
      match lowerAscii b.char with
      | 'x' => (16, some 'x', 2)
      | 'o' => (8, some 'o', 2)
      | 'b' => (2, some 'b', 2)
      | _ => (8, some '0', 1)
    else (10, none, 0)
  | [a] => if a.char == '0' then (8, some '0', 1) else (10, none, 0)
  | [] => (10, none, 0)

def scanExponent (stop : Place) (mark : Option Char) (isFloat : Bool) (ss : List Spot) :
    Bool × List Spot × List Place :=
  let here (ss : List Spot) : Place := (ss.head?.map (·.place)).getD stop
  let letter := (ss.head?.map (lowerAscii ·.char)).getD ' '
  if letter == 'e' || letter == 'p' then
    let isDecimal := mark.isNone || mark == some '0'
    let mismatch := (letter == 'e' && !isDecimal) || (letter == 'p' && mark != some 'x')
    let rest := ss.drop 1
    let rest := if (rest.head?.map fun s => s.char == '+' || s.char == '-').getD false
      then rest.drop 1 else rest
    let (digits, rest') := scanDigits 10 rest
    (true, rest', (if mismatch then [here ss] else []) ++
      (if hasDigit digits then [] else [here rest']))
  else (isFloat, ss, if mark == some 'x' && isFloat then [here ss] else [])

/-- A number; the list starts with a digit, or a point before a digit. -/
def scanNumber (stop : Place) (ss : List Spot) : Scanned :=
  let here (ss : List Spot) : Place := (ss.head?.map (·.place)).getD stop
  let (base, mark, skip) := numberBase ss
  let (whole, rest) := scanDigits base (ss.drop skip)
  let isFloat := (rest.head?.map (·.char == '.')).getD false
  let radix := if isFloat && (mark == some 'o' || mark == some 'b') then [here rest] else []
  let (fraction, rest) := if isFloat then scanDigits base (rest.drop 1) else ([], rest)
  let empty :=
    if mark == some '0' || hasDigit whole || hasDigit fraction then [] else [here rest]
  let (isFloat, rest, exponent) := scanExponent stop mark isFloat rest
  let isImaginary := (rest.head?.map (·.char == 'i')).getD false
  let rest := if isImaginary then rest.drop 1 else rest
  let kind : TokenKind :=
    if isImaginary then .imaginary else if isFloat then .floating else .integer
  let all := ss.take (ss.length - rest.length)
  let tooGreat := whole.find? fun s => s.char != '_' && s.char.toNat ≥ 48 + base
  let invalid :=
    if kind = .integer && base ≤ 10 then (tooGreat.map (·.place)).toList else []
  let checked := if skip = 2 then all.drop 2 else all
  let separators :=
    if all.any (·.char == '_') then
      (misplacedSeparator? (mark == some 'x') (if skip = 2 then .digit else .neither) (here all)
        checked).toList
    else []
  { kind, text := textOf all, rest,
    faults := radix ++ empty ++ exponent ++ invalid ++ separators }

/-! ### Comments -/

def scanLineComment : List Spot × List Spot := ss.span (·.char != '\n')

/-- A comment between marks, without the opening mark; the flag tells whether it is closed. -/
def scanBlockComment : List Spot → List Spot × List Spot × Bool
  | [] => ([], [], false)
  | [s] => ([s], [], false)
  | s :: t :: ss =>
    if s.char == '*' && t.char == '/' then ([s, t], ss, true)
    else
      let (body, rest, isClosed) := scanBlockComment (t :: ss)
      (s :: body, rest, isClosed)

/-! ### Tokens -/

def operator? : Option (String × List Spot) :=
  (operators.find? fun op => (ss.take op.length).map (·.char) == op.toList).map
    fun op => (op, ss.drop op.length)

def startsNumber : List Spot → Bool
  | s :: t :: _ => s.char.isDigit || (s.char == '.' && t.char.isDigit)
  | [s] => s.char.isDigit
  | [] => false

/-- One token other than a comment; the list starts with it. -/
def scanToken (stop : Place) (s : Spot) (ss : List Spot) : Scanned :=
  let all := s :: ss
  if isLetter s.char then
    let (word, rest) := all.span fun s => isLetter s.char || isDigit s.char
    let text := textOf word
    { kind := if keywords.contains text then .keyword else .identifier, text, rest }
  else if startsNumber all then scanNumber stop all
  else match s.char with
    | '"' => scanString stop all s.place
    | '\'' => scanRune stop all s.place
    | '\x60' => scanRawString all s.place
    | ';' => { kind := .semicolon, text := ";", rest := ss }
    | _ =>
      match operator? all with
      | some (text, rest) => { kind := .operator, text, rest }
      | none =>
        { kind := .illegal, text := s.char.toString, rest := ss,
          faults := if s.char == byteOrderMark then [] else [s.place] }

def isBlank (breaks : Bool) (c : Char) : Bool :=
  c == ' ' || c == '\t' || c == '\r' || (c == '\n' && !breaks)

/-- The tokens of a text. `breaks` tells whether a line end stands for a semicolon; comments and
faults are those met since the last token. -/
def lexFrom (stop : Place) : Nat → Bool → List Comment → List Place → List Spot → List Token
  | 0, _, comments, faults, _ => [{ kind := .endOfFile, place := stop, stop, comments, faults }]
  | fuel + 1, breaks, comments, faults, ss =>
    match ss.dropWhile (isBlank breaks ·.char) with
    | [] =>
      let faults := faults ++ wrongPlaces ss []
      let final : Token := { kind := .endOfFile, place := stop, stop }
      if breaks then
        [{ kind := .semicolon, text := "\n", place := stop, stop, comments, faults }, final]
      else [{ final with comments, faults }]
    | s :: rest =>
      let lineEnd (place : Place) (comments : List Comment) (faults : List Place) : Token :=
        { kind := .semicolon, text := "\n", place, stop := place, comments, faults }
      let second := (rest.head?.map (·.char)).getD ' '
      if s.char == '\n' then
        lineEnd s.place comments (faults ++ wrongPlaces ss rest) ::
          lexFrom stop fuel false [] [] rest
      else if s.char == '/' && second == '/' then
        let (body, rest) := scanLineComment (s :: rest)
        let comment : Comment :=
          { text := textOf (body.filter (·.char != '\r')), place := s.place,
            lastLine := s.place.line }
        lexFrom stop fuel breaks (comments ++ [comment]) (faults ++ wrongPlaces ss rest) rest
      else if s.char == '/' && second == '*' then
        let (body, rest, isClosed) := scanBlockComment (rest.drop 1)
        let faults := faults ++ wrongPlaces ss rest ++ (if isClosed then [] else [s.place])
        let comment : Comment :=
          { text := "/*" ++ textOf (body.filter (·.char != '\r')), place := s.place,
            lastLine := ((body.getLast?.map (·.place.line)).getD s.place.line) }
        match body.find? (·.char == '\n') with
        | some br =>
          if breaks then
            lineEnd br.place (comments ++ [comment]) faults ::
              lexFrom stop fuel false [] [] rest
          else lexFrom stop fuel false (comments ++ [comment]) faults rest
        | none => lexFrom stop fuel breaks (comments ++ [comment]) faults rest
      else
        let t := scanToken stop s rest
        let after := (t.rest.head?.map (·.place)).getD stop
        { kind := t.kind, text := t.text, place := s.place, stop := after, comments,
          faults := faults ++ wrongPlaces ss t.rest ++ t.faults } ::
          lexFrom stop fuel
            (if t.kind = .illegal then breaks else Token.endsStatement t.kind t.text)
            [] [] t.rest

def lex (bytes : List UInt8) : List Token :=
  let all := spots true ⟨1, 1⟩ (Utf8.decode bytes)
  let text := match all with
    | s :: ss => if s.char == byteOrderMark then ss else s :: ss
    | [] => []
  let first := ((text.take 1).filter (·.isWrong)).map (·.place)
  lexFrom (endOf all) (2 * all.length + 2) false [] first text

end Schemata.GoSyntax
