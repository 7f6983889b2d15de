import Schemata.Data.Tree
import Schemata.Schema.Show
import Schemata.Yaml.Cursor
import Schemata.Yaml.Scalar

/-!
YAML text of a tree. Records and lists are blocks with two blanks a step; lists of texts and
empty lists stand in brackets. A text is written plainly when it reads back as the same text,
as a literal block when it has more than one line, and in quotes otherwise.
-/

namespace Schemata.Yaml

open Data Text

/-- Characters that show as they are. Those beyond the first plane do not. -/
def isShown (c : Char) : Bool :=
  let n := c.toNat
  n == 10 || (0x20 ≤ n && n ≤ 0x7E) || (0xA0 ≤ n && n ≤ 0xFFFD && n != 0xFEFF)

structure Analysis where
  plainInBlock : Bool
  plainInFlow : Bool
  singleQuoted : Bool
  literal : Bool

structure Spot where
  first : Bool
  /-- The character before is blank, or there is none. -/
  afterBlank : Bool
  char : Char
  /-- The character after is blank, or there is none. -/
  beforeBlank : Bool

def spots (first : Bool) (before : Option Char) : List Char → List Spot
  | [] => []
  | c :: rest =>
    let blank := fun (d : Option Char) => match d with
      | some d => isBlankOrEnd d
      | none => true
    let next := match rest.head? with
      | some d => isBlank d
      | none => true
    ⟨first, blank before, c, next⟩ :: spots false (some c) rest

/-- Whether a character keeps a text from being plain inside brackets. -/
def Spot.marksFlow (s : Spot) : Bool :=
  if s.first then
    ['#', ',', '[', ']', '{', '}', '&', '*', '!', '|', '>', '\'', '"', '%', '@', '\x60', '?',
      ':'].contains s.char || (s.char == '-' && s.beforeBlank)
  else
    [',', '?', '[', ']', '{', '}', ':'].contains s.char || (s.char == '#' && s.afterBlank)

/-- Whether a character keeps a text from being plain in a block. -/
def Spot.marksBlock (s : Spot) : Bool :=
  if s.first then
    ['#', ',', '[', ']', '{', '}', '&', '*', '!', '|', '>', '\'', '"', '%', '@',
      '\x60'].contains s.char || (['?', ':', '-'].contains s.char && s.beforeBlank)
  else (s.char == ':' && s.beforeBlank) || (s.char == '#' && s.afterBlank)

/-- Whether a character of the first kind is followed at once by one of the second. -/
def follows (p q : Char → Bool) : List Char → Bool
  | c :: d :: rest => (p c && q d) || follows p q (d :: rest)
  | _ => false

def analyze (s : String) : Analysis :=
  let cs := s.toList
  if cs.isEmpty then ⟨true, false, true, false⟩
  else
    let isSpace := fun (c : Char) => c == ' '
    let edge := fun (p : Char → Bool) => cs.head?.any p || cs.getLast?.any p
    let around := edge isSpace || edge isBreak
    let marker := cs.take 3 = ['-', '-', '-'] || cs.take 3 = ['.', '.', '.']
    let places := spots true none cs
    let special := cs.any fun c => !isShown c && c != '\t'
    let broken := cs.any isBreak
    let breakSpace := follows isBreak isSpace cs
    let spaceBreak := follows isSpace isBreak cs
    let unquotable := breakSpace || spaceBreak || cs.contains '\t' || special
    let plain := !around && !unquotable && !broken && !marker
    ⟨plain && !places.any Spot.marksBlock, plain && !places.any Spot.marksFlow, !unquotable,
      !cs.getLast?.any isSpace && !spaceBreak && !special⟩

def escaped (c : Char) : List Char :=
  if isShown c && !isBreak c && c != '"' && c != '\\' then [c]
  else
    let short := fun (d : Char) => ['\\', d]
    let upperHex := fun (width n : Nat) => (hex width n).map Char.toUpper
    match c.toNat with
    | 0 => short '0'
    | 7 => short 'a'
    | 8 => short 'b'
    | 9 => short 't'
    | 10 => short 'n'
    | 11 => short 'v'
    | 12 => short 'f'
    | 13 => short 'r'
    | 0x1b => short 'e'
    | 0x22 => short '"'
    | 0x5c => short '\\'
    | 0x85 => short 'N'
    | 0xA0 => short '_'
    | 0x2028 => short 'L'
    | 0x2029 => short 'P'
    | n =>
      if n ≤ 0xFF then '\\' :: 'x' :: upperHex 2 n
      else if n ≤ 0xFFFF then '\\' :: 'u' :: upperHex 4 n
      else '\\' :: 'U' :: upperHex 8 n

def doubleQuoted (s : String) : String :=
  String.ofList ('"' :: s.toList.flatMap escaped ++ ['"'])

def singleQuoted (s : String) : String :=
  String.ofList ('\'' :: s.toList.flatMap (fun c => if c = '\'' then [c, c] else [c]) ++ ['\''])

/-- The lines of a literal block, each at its indentation; empty lines have none. -/
def indentLines (indent : List Char) (lineStart : Bool) : List Char → List Char
  | [] => []
  | c :: rest =>
    if isBreak c then c :: indentLines indent true rest
    else (if lineStart then indent else []) ++ c :: indentLines indent false rest

/-- A text as a literal block at an indentation. Signs tell that it starts with a blank, and how
it ends. -/
def literalBlock (indent : Nat) (s : String) : String :=
  let cs := s.toList
  let start := if cs.head?.any (fun c => c == ' ' || isBreak c) then "2" else ""
  let ends := match cs.reverse with
    | c :: d :: _ => if !isBreak c then "-" else if isBreak d then "+" else ""
    | [c] => if isBreak c then "+" else "-"
    | [] => "-"
  let body := indentLines (List.replicate indent ' ') true cs
  let opening := if cs.head?.any isBreak then [] else ['\n']
  let closing := if cs.getLast?.any isBreak then [] else ['\n']
  "|" ++ start ++ ends ++ String.ofList (opening ++ body ++ closing)

def flowText (s : String) : String :=
  let a := analyze s
  if s.contains '\n' || !readsAsText s then doubleQuoted s
  else if a.plainInFlow then s
  else if a.singleQuoted then singleQuoted s
  else doubleQuoted s

/-- A text after a key or a dash, with the line break that ends it; `indent` is where a literal
block would stand. -/
def blockText (indent : Nat) (s : String) : String :=
  let a := analyze s
  if s.contains '\n' then
    if a.literal then literalBlock indent s else doubleQuoted s ++ "\n"
  else if !readsAsText s then doubleQuoted s ++ "\n"
  else if a.plainInBlock then s ++ "\n"
  else if a.singleQuoted then singleQuoted s ++ "\n"
  else doubleQuoted s ++ "\n"

def blanks (n : Nat) : String := String.ofList (List.replicate n ' ')

def isFlow (ts : List Tree) : Bool :=
  ts.all fun
    | .text _ => true
    | _ => false

mutual

/-- What follows a key or a dash at a column, with the blank or line break before it. -/
def printValue (column : Nat) : Tree → String
  | .none => " null\n"
  | .text s => " " ++ blockText (column + 2) s
  | .flag b => if b then " true\n" else " false\n"
  | .number n => " " ++ showInt n ++ "\n"
  | .list ts =>
    if isFlow ts then
      " [" ++ String.intercalate ", " (ts.map fun t => flowText t.asText) ++ "]\n"
    else "\n" ++ printEntries (column + 2) ts
  | .record [] => " {}\n"
  | .record fields => "\n" ++ printFields (column + 2) fields

def printFields (column : Nat) : List (String × Tree) → String
  | [] => ""
  | (name, t) :: rest => blanks column ++ name ++ ":" ++ printValue column t ++
      printFields column rest

/-- The entries of a list; the first field of a record stands behind the dash. -/
def printEntries (column : Nat) : List Tree → String
  | [] => ""
  | .record ((name, t) :: fields) :: rest =>
    blanks column ++ "- " ++ name ++ ":" ++ printValue (column + 2) t ++
      printFields (column + 2) fields ++ printEntries column rest
  | t :: rest => blanks column ++ "-" ++ printValue column t ++ printEntries column rest

end

def print (t : Tree) : String := printFields 0 t.fields

end Schemata.Yaml
