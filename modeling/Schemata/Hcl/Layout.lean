import Schemata.Hcl.Lexer

/-!
The canonical layout of texts without comments and heredocs. Only blanks between tokens change:
lines are indented by their open brackets, tokens are set apart by rules, and the equals signs of
neighbouring lines are aligned.
-/

namespace Schemata.Hcl

open Text

def TokenKind.bracketChange : TokenKind → Int
  | .openBrace | .openBracket | .openParen | .directive | .interpolation => 1
  | .closeBrace | .closeBracket | .closeParen | .sequenceEnd => -1
  | _ => 0

def bracketChange (ts : List Token) : Int := (ts.map (·.kind.bracketChange)).foldr (· + ·) 0

/-- A line: what stands before an equals sign, and the rest from that sign on. -/
structure Line where
  lead : List Token
  setting : List Token := []

/-- The tokens line by line; the end of the file belongs to none. -/
def linesOf (current : List Token) : List Token → List (List Token)
  | [] => if current.isEmpty then [] else [current.reverse]
  | t :: ts =>
    if t.kind = .endOfFile then linesOf current ts
    else if t.endsLine then (t :: current).reverse :: linesOf [] ts
    else linesOf (t :: current) ts

/-- Divides a line at its equals sign, if what follows closes the brackets it opens. -/
def Line.ofTokens (ts : List Token) : Line :=
  match ts with
  | [] => ⟨[], []⟩
  | first :: rest =>
    let before := rest.takeWhile (·.kind ≠ .equal)
    let after := rest.dropWhile (·.kind ≠ .equal)
    if !after.isEmpty && bracketChange after == 0 then ⟨first :: before, after⟩ else ⟨ts, []⟩

/-! ### Indentation -/

/-- Closes brackets; each entry is how many brackets a line left open. -/
def closeIndents : List Nat → Nat → List Nat
  | [], _ => []
  | n :: ns, closed =>
    if closed = 0 then n :: ns
    else if closed > n then closeIndents ns (closed - n)
    else if closed < n then (n - closed) :: ns
    else ns

def setSpaces (n : Nat) : List Token → List Token
  | [] => []
  | t :: ts => { t with spaces := n } :: ts

def indentLines (opened : List Nat) : List Line → List Line
  | [] => []
  | l :: ls =>
    match l.lead with
    | [] => l :: indentLines opened ls
    | t :: _ =>
      if t.kind = .newline then { l with lead := setSpaces 0 l.lead } :: indentLines opened ls
      else
        let change := bracketChange l.lead + bracketChange l.setting
        let after :=
          if change > 0 then change.toNat :: opened
          else closeIndents opened (-change).toNat
        let width := if change > 0 then opened.length else after.length
        { l with lead := setSpaces (2 * width) l.lead } :: indentLines after ls

/-! ### Spaces -/

/-- Tokens after which a minus sign is a negation. -/
def TokenKind.beforeNegation : TokenKind → Bool
  | .openParen | .openBrace | .openBracket | .equal | .colon | .comma | .question | .plus | .star
  | .slash | .percent | .minus | .equals | .notEquals | .greater | .greaterEqual | .less
  | .lessEqual | .and | .or | .bang => true
  | _ => false

def TokenKind.isTemplateText : TokenKind → Bool
  | .quotedText | .heredocText => true
  | _ => false

/-- Whether a space stands between two tokens; `before` is the token before them. -/
def spaceBetween (before : Option Token) (t after : Token) : Bool :=
  let k := t.kind
  let a := after.kind
  if a = .newline then false
  else if k = .identifier ∧ a = .openParen then false
  else if (k = .identifier ∧ a = .doubleColon) ∨ (k = .doubleColon ∧ a = .identifier) then false
  else if k = .dot ∨ a = .dot then false
  else if a = .comma ∨ a = .ellipsis then false
  else if k = .comma then true
  else if k.isTemplateText ∨ k = .openQuote ∨ k = .openHeredoc ∨ a.isTemplateText ∨
      a = .closeQuote ∨ a = .closeHeredoc then false
  else if t.isWord "in" ∧ (before.map (·.kind)) = some .identifier then true
  else if a = .openBracket ∧ (k = .identifier ∨ k = .number ∨ k.bracketChange < 0) then false
  else if k = .bang then false
  else if k = .minus then
    match before with
    | none => false
    | some b => !b.kind.beforeNegation
  else if k = .openBrace ∨ a = .closeBrace then !(k = .openBrace ∧ a = .closeBrace)
  else if (k = .interpolation ∨ k = .directive) ∧ a = .openBrace then true
  else if k = .closeBrace ∧ a = .sequenceEnd then true
  else if k = .sequenceEnd ∧ (a = .interpolation ∨ a = .directive) then false
  else if k.bracketChange > 0 then false
  else if a.bracketChange < 0 then false
  else true

/-- Sets the spaces of the tokens behind `t`. -/
def spaceBehind (before : Option Token) (t : Token) : List Token → List Token
  | [] => []
  | after :: rest =>
    { after with spaces := if spaceBetween before t after then 1 else 0 } ::
      spaceBehind (some t) after rest

/-- Sets the spaces between the tokens of a cell; the first keeps its own. -/
def spaceTokens : List Token → List Token
  | [] => []
  | t :: rest => t :: spaceBehind none t rest

def Line.spaced (l : Line) : Line :=
  ⟨spaceTokens l.lead, spaceTokens (setSpaces 1 l.setting)⟩

/-! ### Alignment -/

def columnsOf (ts : List Token) : Nat :=
  (ts.map fun t => t.spaces + columns t.text).foldr (· + ·) 0

/-- Aligns the equals signs of each run of lines that have one. `width` is the widest lead of
the run being read. -/
def alignLines (width : Nat) : List Line → List Line × Nat
  | [] => ([], width)
  | l :: ls =>
    if l.setting.isEmpty then (l :: (alignLines 0 ls).1, width)
    else
      let (rest, widest) := alignLines (max width (columnsOf l.lead)) ls
      ({ l with setting := setSpaces (widest - columnsOf l.lead + 1) l.setting } :: rest, widest)

/-! ### Texts -/

def Token.spelled (t : Token) : List Char := List.replicate t.spaces ' ' ++ t.text

def formatted (s : String) : String :=
  let lines := (linesOf [] (lex s.toList)).map Line.ofTokens
  let lines := (indentLines [] lines).map Line.spaced
  let lines := (alignLines 0 lines).1
  String.ofList (lines.flatMap fun l => (l.lead ++ l.setting).flatMap Token.spelled)

end Schemata.Hcl
