import Schemata.Hcl.Token
import Schemata.Text.Blank
import Schemata.Text.Grapheme
import Schemata.Text.Identifier

/-!
Texts of the block language cut into tokens. Quotation marks and heredocs open templates, in
which text stands for itself up to an interpolation or a directive; their braces lead back to
plain tokens and, when they close, to the template. The tokens with the blanks between them make
up the whole text.
-/

namespace Schemata.Hcl

open Text

inductive Mode where
  /-- Plain tokens; `depth` braces are open. -/
  | plain (depth : Nat)
  | quoted
  | heredoc (marker : List Char) (startOfLine : Bool)
deriving DecidableEq, Repr

/-! ### Plain tokens -/

def isWordStart (c : Char) : Bool := isIdentifierStart c || c == '_'

def isWordPart (c : Char) : Bool := isIdentifierPart c || c == '-'

def isIdentifier : List Char → Bool
  | [] => false
  | c :: cs => isWordStart c && cs.all isWordPart

/-- How many characters continue a number. Points count only when something follows them. -/
def numberTail (points taken : Nat) : List Char → Nat
  | [] => taken
  | c :: cs =>
    if c.isDigit then numberTail 0 (taken + points + 1) cs
    else if c == '.' then numberTail (points + 1) taken cs
    else if c == 'e' || c == 'E' then
      match cs with
      | d :: cs' =>
        if d.isDigit then numberTail 0 (taken + points + 2) cs'
        else if d == '+' || d == '-' then
          match cs' with
          | d' :: cs'' =>
            if d'.isDigit then numberTail 0 (taken + points + 3) cs'' else taken
          | [] => taken
        else taken
      | [] => taken
    else taken

def lineLength : List Char → Nat
  | [] => 0
  | '\n' :: _ => 1
  | _ :: cs => lineLength cs + 1

def blockLength? : List Char → Option Nat
  | [] => none
  | '*' :: '/' :: _ => some 2
  | _ :: cs => (blockLength? cs).map (· + 1)

/-- The marker and the length of what opens a heredoc, behind its first two characters. -/
def heredocStart? (cs : List Char) : Option (List Char × Nat) :=
  let (dash, body) := match cs with
    | '-' :: body => (1, body)
    | body => (0, body)
  match body with
  | c :: rest =>
    if isWordStart c then
      let word := c :: rest.takeWhile isWordPart
      match rest.dropWhile isWordPart with
      | '\n' :: _ => some (word, dash + word.length + 1)
      | '\r' :: '\n' :: _ => some (word, dash + word.length + 2)
      | _ => none
    else none
  | [] => none

def signAt : List Char → TokenKind × Nat
  | '=' :: '=' :: _ => (.equals, 2)
  | '=' :: '>' :: _ => (.arrow, 2)
  | '!' :: '=' :: _ => (.notEquals, 2)
  | '>' :: '=' :: _ => (.greaterEqual, 2)
  | '<' :: '=' :: _ => (.lessEqual, 2)
  | '&' :: '&' :: _ => (.and, 2)
  | '|' :: '|' :: _ => (.or, 2)
  | '.' :: '.' :: '.' :: _ => (.ellipsis, 3)
  | ':' :: ':' :: _ => (.doubleColon, 2)
  | '[' :: _ => (.openBracket, 1)
  | ']' :: _ => (.closeBracket, 1)
  | '(' :: _ => (.openParen, 1)
  | ')' :: _ => (.closeParen, 1)
  | '.' :: _ => (.dot, 1)
  | ',' :: _ => (.comma, 1)
  | '*' :: _ => (.star, 1)
  | '/' :: _ => (.slash, 1)
  | '%' :: _ => (.percent, 1)
  | '+' :: _ => (.plus, 1)
  | '-' :: _ => (.minus, 1)
  | '=' :: _ => (.equal, 1)
  | '<' :: _ => (.less, 1)
  | '>' :: _ => (.greater, 1)
  | '!' :: _ => (.bang, 1)
  | '?' :: _ => (.question, 1)
  | ':' :: _ => (.colon, 1)
  | _ => (.invalid, 1)

/-- The kind and length of the next token, and the modes after it. -/
def plainToken (depth : Nat) (outer : List Mode) (cs : List Char) :
    TokenKind × Nat × List Mode :=
  let here := Mode.plain depth :: outer
  match cs with
  | [] => (.invalid, 0, here)
  | '#' :: rest => (.comment, lineLength rest + 1, here)
  | '/' :: '/' :: rest => (.comment, lineLength rest + 2, here)
  | '/' :: '*' :: rest =>
    match blockLength? rest with
    | some n => (.comment, n + 2, here)
    | none => (.slash, 1, here)
  | '\n' :: _ => (.newline, 1, here)
  | '\r' :: '\n' :: _ => (.newline, 2, here)
  | '{' :: _ => (.openBrace, 1, .plain (depth + 1) :: outer)
  | '}' :: _ =>
    if depth = 0 ∧ !outer.isEmpty then (.sequenceEnd, 1, outer)
    else (.closeBrace, 1, .plain (depth - 1) :: outer)
  | '~' :: '}' :: _ =>
    if depth = 0 ∧ !outer.isEmpty then (.sequenceEnd, 2, outer)
    else (.sequenceEnd, 2, .plain (depth - 1) :: outer)
  | '"' :: _ => (.openQuote, 1, .quoted :: here)
  | '<' :: '<' :: rest =>
    match heredocStart? rest with
    | some (marker, n) => (.openHeredoc, n + 2, .heredoc marker true :: here)
    | none => (.less, 1, here)
  | c :: rest =>
    if c.isDigit then (.number, numberTail 0 1 rest, here)
    else if isWordStart c then (.identifier, (rest.takeWhile isWordPart).length + 1, here)
    else
      let (kind, n) := signAt cs
      (kind, n, here)

/-! ### Templates -/

def quotedLength : List Char → Nat
  | [] => 0
  | '"' :: _ => 0
  | '\n' :: _ => 0
  | '\r' :: _ => 0
  | '\\' :: c :: cs => if c == '\n' || c == '\r' then 0 else quotedLength cs + 2
  | ['\\'] => 0
  | '$' :: '$' :: '{' :: cs => quotedLength cs + 3
  | '%' :: '%' :: '{' :: cs => quotedLength cs + 3
  | '$' :: '{' :: _ => 0
  | '%' :: '{' :: _ => 0
  | ['$'] => 0
  | ['%'] => 0
  | _ :: cs => quotedLength cs + 1

def breakLength (cs : List Char) : Nat :=
  (cs.takeWhile fun c => c == '\n' || c == '\r').length

/-- The opening of an interpolation or a directive. -/
def sequenceAt : List Char → Option (TokenKind × Nat)
  | '$' :: '{' :: '~' :: _ => some (.interpolation, 3)
  | '%' :: '{' :: '~' :: _ => some (.directive, 3)
  | '$' :: '{' :: _ => some (.interpolation, 2)
  | '%' :: '{' :: _ => some (.directive, 2)
  | _ => none

def quotedToken (outer : List Mode) (cs : List Char) : TokenKind × Nat × List Mode :=
  let here := Mode.quoted :: outer
  match sequenceAt cs with
  | some (kind, n) => (kind, n, .plain 0 :: here)
  | none =>
    match cs with
    | '"' :: _ => (.closeQuote, 1, outer)
    | _ =>
      let n := quotedLength cs
      if n > 0 then (.quotedText, n, here)
      else
        let breaks := breakLength cs
        (.invalid, if breaks > 0 then breaks else 1, here)

/-- How many characters of a heredoc's line follow, and whether the line ends with them. -/
def heredocLength : List Char → Nat × Bool
  | [] => (0, false)
  | '\n' :: _ => (1, true)
  | '\r' :: '\n' :: _ => (2, true)
  | '\r' :: _ => (0, false)
  | '$' :: '$' :: '{' :: cs => let (n, ends) := heredocLength cs; (n + 3, ends)
  | '%' :: '%' :: '{' :: cs => let (n, ends) := heredocLength cs; (n + 3, ends)
  | '$' :: '{' :: _ => (0, false)
  | '%' :: '{' :: _ => (0, false)
  | ['$'] => (0, false)
  | ['%'] => (0, false)
  | _ :: cs => let (n, ends) := heredocLength cs; (n + 1, ends)

/-- The next token of a heredoc. The closing marker stands alone on its line, without the line
break. -/
def heredocToken (marker : List Char) (startOfLine : Bool) (outer : List Mode)
    (cs : List Char) : TokenKind × Nat × List Mode :=
  match sequenceAt cs with
  | some (kind, n) => (kind, n, .plain 0 :: .heredoc marker false :: outer)
  | none =>
    let (n, ends) := heredocLength cs
    if n = 0 then (.invalid, cs.length, .heredoc marker startOfLine :: outer)
    else if ends then
      let line := cs.take n
      if startOfLine && trim line == marker then
        let body := line.dropLast
        let body := if body.getLast? == some '\r' then body.dropLast else body
        (.closeHeredoc, body.length, outer)
      else (.heredocText, n, .heredoc marker true :: outer)
    else (.heredocText, n, .heredoc marker false :: outer)

/-! ### Texts -/

/-- The kind and length of the next token, and the modes after it. -/
def nextToken (modes : List Mode) (cs : List Char) : TokenKind × Nat × List Mode :=
  match modes with
  | .quoted :: outer => quotedToken outer cs
  | .heredoc marker startOfLine :: outer => heredocToken marker startOfLine outer cs
  | .plain depth :: outer => plainToken depth outer cs
  | [] => plainToken 0 [] cs

def advance (p : Place) (text : List Char) : Place :=
  (clusters text).foldl (fun p cluster =>
    if cluster == ['\n'] || cluster == ['\r', '\n'] then ⟨p.line + 1, 1⟩
    else { p with column := p.column + 1 }) p

def skipsBlanks : List Mode → Bool
  | .quoted :: _ | .heredoc _ _ :: _ => false
  | _ => true

def isSpace (c : Char) : Bool := c == ' ' || c == '\t'

/-- The tokens of a text from a place on; each takes at least one character. -/
def lexFrom (modes : List Mode) (place : Place) (cs : List Char) : List Token :=
  let spaces := if skipsBlanks modes then (cs.takeWhile isSpace).length else 0
  let place := { place with column := place.column + spaces }
  match _h : cs.drop spaces with
  | [] => [{ kind := .endOfFile, text := [], place, spaces }]
  | c :: rest =>
    let (kind, n, modes) := nextToken modes (c :: rest)
    let text := c :: rest.take (n - 1)
    { kind, text, place, spaces } :: lexFrom modes (advance place text) (rest.drop (n - 1))
termination_by cs.length
decreasing_by
  have h := congrArg List.length _h
  simp only [List.length_drop, List.length_cons] at h ⊢
  omega

def lex (cs : List Char) : List Token := lexFrom [.plain 0] ⟨1, 1⟩ cs

end Schemata.Hcl
