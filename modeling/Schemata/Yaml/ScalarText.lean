import Schemata.Text.Quoted
import Schemata.Yaml.Cursor

/-!
Scalars as they are written: plain, quoted and in blocks. Line breaks inside plain and quoted
scalars fold into blanks.
-/

namespace Schemata.Yaml

open Text

/-- What folded line breaks leave: one becomes a blank, more lose the first. -/
def foldBreaks (first more : List Char) : List Char :=
  if first.head? = some '\n' then (if more.isEmpty then [' '] else more) else first ++ more

/-- Blanks and line breaks between the words of a scalar. -/
structure Gap where
  broken : Bool := false
  blanks : List Char := []
  first : List Char := []
  more : List Char := []

def Gap.text (g : Gap) : List Char :=
  if g.broken then foldBreaks g.first g.more else g.blanks

/-- Passes blanks and line breaks. A tab after a line break and before column `indent` is refused
when an indentation is given. -/
def gap (fuel : Nat) (began : Mark) (indent : Option Int) (g : Gap) : Lexer Gap := do
  match fuel with
  | 0 => return g
  | fuel + 1 =>
    let c ← peek
    if isBlank c then
      match indent with
      | some n =>
        if g.broken && c == '\t' && ((← get).mark.column : Int) < n then refuse began
      | none => pure ()
      skip
      gap fuel began indent (if g.broken then g else { g with blanks := g.blanks ++ [c] })
    else if isBreak c then
      let line ← takeLine
      gap fuel began indent
        (if g.broken then { g with more := g.more ++ line }
        else { g with broken := true, blanks := [], first := line })
    else return g

/-! ### Plain scalars -/

/-- Whether a plain scalar ends before the character in front. -/
def endsPlain : Lexer Bool := do
  let c ← peek
  let flow := (← get).flow > 0
  if isBlankOrEnd c then return true
  if c == ':' then return isBlankOrEnd (← peekAt 1)
  return flow && (c == ',' || c == '?' || c == '[' || c == ']' || c == '{' || c == '}')

def plainWord (fuel : Nat) (done : List Char) : Lexer (List Char) := do
  match fuel with
  | 0 => return done.reverse
  | fuel + 1 =>
    if ← endsPlain then return done.reverse
    else
      let c ← peek
      skip
      plainWord fuel (c :: done)

/-- A plain scalar from a word on; gives its text, where it ends and whether a line break
follows. -/
def plainFrom (fuel : Nat) (began : Mark) (indent : Int) (text : List Char) (before : Gap)
    (stop : Mark) : Lexer (List Char × Mark × Bool) := do
  match fuel with
  | 0 => return (text, stop, before.broken)
  | fuel + 1 =>
    if (← atDocumentMarker) || (← peek) == '#' then return (text, stop, before.broken)
    let word ← plainWord ((← get).rest.length + 1) []
    let (text, stop, before) ← if word.isEmpty then pure (text, stop, before) else do
      pure (text ++ before.text ++ word, (← get).mark, {})
    let c ← peek
    if !(isBlank c || isBreak c) then return (text, stop, before.broken)
    let after ← gap ((← get).rest.length + 1) began (some indent) before
    let s ← get
    if s.flow == 0 && (s.mark.column : Int) < indent then return (text, stop, after.broken)
    plainFrom fuel began indent text after stop

def plainScalar : Lexer Token := do
  let s ← get
  let (text, stop, broken) ←
    plainFrom (s.rest.length + 1) s.mark (s.indent + 1) [] {} s.mark
  if broken then modify fun s => { s with keyAllowed := true }
  return ⟨.scalar (String.ofList text) .plain, s.mark, stop⟩

/-! ### Quoted scalars -/

def escapeOf? : Char → Option Char
  | '0' => some '\x00'
  | 'a' => some '\x07'
  | 'b' => some '\x08'
  | 't' | '\t' => some '\t'
  | 'n' => some '\n'
  | 'v' => some '\x0b'
  | 'f' => some '\x0c'
  | 'r' => some '\r'
  | 'e' => some '\x1b'
  | ' ' => some ' '
  | '"' => some '"'
  | '\'' => some '\''
  | '\\' => some '\\'
  | '/' => some '/'
  | 'N' => some '\u0085'
  | '_' => some ' '
  | 'L' => some ' '
  | 'P' => some ' '
  | _ => none

def escapeDigits? : Char → Option Nat
  | 'x' => some 2
  | 'u' => some 4
  | 'U' => some 8
  | _ => none

def hexDigits (began : Mark) : Nat → Nat → Lexer Nat
  | 0, value => return value
  | n + 1, value => do
    match hexValue? (← peek) with
    | some d =>
      skip
      hexDigits began n (value * 16 + d)
    | none => refuse began

/-- An escape whose backslash stands in front and is not followed by a line break. -/
def escape (began : Mark) : Lexer Char := do
  let c ← peekAt 1
  match escapeOf? c with
  | some d =>
    skip
    skip
    return d
  | none =>
    match escapeDigits? c with
    | none => refuse began
    | some n =>
      skip
      skip
      let here ← get
      let value ← hexDigits began n 0
      if (0xD800 ≤ value ∧ value ≤ 0xDFFF) ∨ value > 0x10FFFF then
        throw (Fault.ofSpelling began here.mark)
      return Char.ofNat value

/-- The characters of one word of a quoted scalar, and whether it ends in an escaped line
break. -/
def quotedWord (fuel : Nat) (single : Bool) (began : Mark) (done : List Char) :
    Lexer (List Char × Bool) := do
  match fuel with
  | 0 => return (done.reverse, false)
  | fuel + 1 =>
    let c ← peek
    if isBlankOrEnd c then return (done.reverse, false)
    if single then
      if c == '\'' then
        if (← peekAt 1) == '\'' then
          skip
          skip
          quotedWord fuel single began ('\'' :: done)
        else return (done.reverse, false)
      else
        skip
        quotedWord fuel single began (c :: done)
    else if c == '"' then return (done.reverse, false)
    else if c == '\\' then
      if isBreak (← peekAt 1) then
        skip
        skipLine
        return (done.reverse, true)
      else
        let d ← escape began
        quotedWord fuel single began (d :: done)
    else
      skip
      quotedWord fuel single began (c :: done)

def quotedFrom (fuel : Nat) (single : Bool) (began : Mark) (text : List Char) :
    Lexer (List Char) := do
  match fuel with
  | 0 => refuse began
  | fuel + 1 =>
    if ← atDocumentMarker then refuse began
    if isEnd (← peek) then refuse began
    let (word, escaped) ← quotedWord ((← get).rest.length + 1) single began []
    let text := text ++ word
    if (← peek) == (if single then '\'' else '"') then
      skip
      return text
    let g ← gap ((← get).rest.length + 1) began none { broken := escaped }
    quotedFrom fuel single began (text ++ g.text)

def quotedScalar (single : Bool) : Lexer Token := do
  let s ← get
  skip
  let text ← quotedFrom (s.rest.length + 1) single s.mark []
  let style := if single then Style.singleQuoted else .doubleQuoted
  return ⟨.scalar (String.ofList text) style, s.mark, (← get).mark⟩

/-! ### Block scalars -/

/-- What becomes of the line breaks at the end. -/
inductive Chomping where
  | strip
  | clip
  | keep
deriving DecidableEq, Repr

def chomping? : Char → Option Chomping
  | '+' => some .keep
  | '-' => some .strip
  | _ => none

/-- An indentation digit; zero is refused. -/
def indentation? (began : Mark) : Lexer (Option Nat) := do
  let c ← peek
  if '0' ≤ c ∧ c ≤ '9' then
    if c = '0' then refuse began
    skip
    return some (c.toNat - 48)
  else return none

/-- The signs after the opening one: chomping and indentation in either order. -/
def blockSigns (began : Mark) : Lexer (Chomping × Option Nat) := do
  match chomping? (← peek) with
  | some chomping =>
    skip
    return (chomping, ← indentation? began)
  | none =>
    let increment ← indentation? began
    if increment.isNone then return (.clip, none)
    match chomping? (← peek) with
    | some chomping =>
      skip
      return (chomping, increment)
    | none => return (.clip, increment)

/-- Passes indentation and empty lines. An indentation of zero is yet unknown; the widest one
passed comes back too. -/
def blockBreaks (fuel : Nat) (began : Mark) (indent widest : Nat) (breaks : List Char) :
    Lexer (Nat × List Char) := do
  match fuel with
  | 0 => return (widest, breaks)
  | fuel + 1 =>
    let s ← get
    let room := if indent = 0 then s.rest.length else indent - s.mark.column
    let blanks := (s.rest.take room).takeWhile (· == ' ')
    for _ in blanks do skip
    let column := (← get).mark.column
    let widest := max widest column
    let c ← peek
    if (indent = 0 ∨ column < indent) ∧ c = '\t' then refuse began
    if !isBreak c then return (widest, breaks)
    let line ← takeLine
    blockBreaks fuel began indent widest (breaks ++ line)

/-- The lines of a block scalar. `leading` is the break before the line in front, `breaks` the
empty lines before it. -/
def blockLines (fuel : Nat) (folded : Bool) (began : Mark) (indent : Nat) (text leading : List Char)
    (breaks : List Char) (afterBlank : Bool) : Lexer (List Char × List Char × List Char) := do
  match fuel with
  | 0 => return (text, leading, breaks)
  | fuel + 1 =>
    let c ← peek
    if (← get).mark.column ≠ indent ∨ isEnd c then return (text, leading, breaks)
    let blank := isBlank c
    let joined :=
      if folded && !afterBlank && !blank && leading.head? == some '\n' then
        (if breaks.isEmpty then [' '] else [])
      else leading
    let line ← takeWhile fun c => !isBreak c
    let text := text ++ joined ++ breaks ++ line
    let leading ← takeLine
    let (_, breaks) ← blockBreaks ((← get).rest.length + 1) began indent 0 []
    blockLines fuel folded began indent text leading breaks blank

def blockScalar (folded : Bool) : Lexer Token := do
  let began := (← get).mark
  skip
  let (chomping, increment) ← blockSigns began
  skipWhile isBlank
  if (← peek) == '#' then skipWhile fun c => !isBreak c
  if !isBreakOrEnd (← peek) then refuse began
  skipLine
  let s ← get
  let given := match increment with
    | some n => if s.indent ≥ 0 then s.indent.toNat + n else n
    | none => 0
  let (widest, breaks) ← blockBreaks (s.rest.length + 1) began given 0 []
  let indent :=
    if given = 0 then max (max widest (s.indent + 1).toNat) 1 else given
  let (text, leading, breaks) ←
    blockLines ((← get).rest.length + 1) folded began indent [] [] breaks false
  let text := match chomping with
    | .strip => text
    | .clip => text ++ leading
    | .keep => text ++ leading ++ breaks
  let style := if folded then Style.folded else .literal
  return ⟨.scalar (String.ofList text) style, began, (← get).mark⟩

end Schemata.Yaml
