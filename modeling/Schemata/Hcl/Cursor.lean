import Schemata.Hcl.Syntax
import Schemata.Hcl.Token

/-!
Where reading stands in a list of tokens, and how it gets on after a fault. Faults are noted and
reading goes on behind the construct that holds them, since a later fault may be reported before
an earlier one.
-/

namespace Schemata.Hcl

open Text

structure Cursor where
  rest : List Token
  /-- The end of the file, which is read again when nothing is left. -/
  final : Token
  /-- Whether line breaks count, for each construct that decides it, the innermost first. -/
  breaks : List Bool := [true]
  /-- Reading has skipped something, so what follows may not be worth a fault. -/
  recovering : Bool := false
  faults : List Place := []

abbrev Parse := StateM Cursor

/-- The first token that counts, and the tokens behind it. -/
def visible (breaks : Bool) (final : Token) : List Token → Token × List Token
  | [] => (final, [])
  | t :: ts =>
    if t.kind = .comment then
      if breaks ∧ t.endsLine then ({ t with kind := .newline }, ts) else visible breaks final ts
    else if t.kind = .newline ∧ !breaks then visible breaks final ts
    else (t, ts)

def Cursor.next (c : Cursor) : Token × List Token :=
  visible (c.breaks.headD true) c.final c.rest

def peek : Parse Token := do return (← get).next.1

def read : Parse Token := do
  let c ← get
  let (t, rest) := c.next
  set { c with rest }
  return t

def withBreaks {α : Type} (count : Bool) (p : Parse α) : Parse α := do
  modify fun c => { c with breaks := count :: c.breaks }
  let a ← p
  modify fun c => { c with breaks := c.breaks.drop 1 }
  return a

def fault (place : Place) : Parse Unit :=
  modify fun c => { c with faults := place :: c.faults }

/-- A fault that is not worth noting after something was skipped. -/
def minorFault (place : Place) : Parse Unit := do
  unless (← get).recovering do fault place

def startRecovery : Parse Unit := modify fun c => { c with recovering := true }

def attempt {α : Type} (p : Parse α) : Parse (α × Bool) := do
  let before := (← get).faults.length
  let a ← p
  return (a, (← get).faults.length > before)

/-- The result, and whether reading lost its way. -/
def attemptLost {α : Type} (p : Parse α) : Parse (α × Bool) := do
  let (a, faulty) ← attempt p
  return (a, faulty && (← get).recovering)

/-- The tokens behind a closing bracket, over the brackets of its kind that open before it. -/
def skipPast (close : TokenKind) (depth : Nat) : List Token → List Token
  | [] => []
  | t :: ts =>
    let kind := if close = .sequenceEnd ∧ t.kind = .directive then .interpolation else t.kind
    if some kind = close.opposite? then skipPast close (depth + 1) ts
    else if kind = close then if depth = 0 then ts else skipPast close (depth - 1) ts
    else if kind = .endOfFile then ts
    else skipPast close depth ts

/-- Goes on behind the closing bracket of the construct being read. -/
def recover (close : TokenKind) : Parse Unit :=
  modify fun c => { c with recovering := true, rest := skipPast close 0 c.rest }

def recoverOverParentheses : Parse Unit :=
  modify fun c =>
    match c.rest.dropWhile fun t => t.kind ≠ .openParen ∧ t.kind ≠ .endOfFile with
    | t :: ts =>
      if t.kind = .openParen then
        { c with recovering := true, rest := skipPast .closeParen 0 ts }
      else { c with rest := ts }
    | [] => { c with rest := [] }

/-- The tokens behind the line an item ends on; brackets that open on the way are closed
first. -/
def skipItem (opened : List TokenKind) : List Token → List Token
  | [] => []
  | t :: ts =>
    if t.endsLine then
      if opened.isEmpty then ts else skipItem opened ts
    else match t.kind with
      | .endOfFile => ts
      | .openBrace | .openBracket | .openParen | .openQuote | .openHeredoc | .interpolation
      | .directive => skipItem (t.kind :: opened) ts
      | .closeBrace | .closeBracket | .closeParen | .closeQuote | .closeHeredoc =>
        let opened := opened.dropWhile fun k => some k ≠ t.kind.opposite?
        skipItem (opened.drop 1) ts
      | .sequenceEnd =>
        let opened := opened.dropWhile fun k => k ≠ .interpolation ∧ k ≠ .directive
        skipItem (opened.drop 1) ts
      | _ => skipItem opened ts

def recoverItem : Parse Unit :=
  modify fun c => { c with recovering := true, rest := skipItem [] c.rest }

end Schemata.Hcl
