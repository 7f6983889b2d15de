import Schemata.GoSyntax.Tree

/-!
Where reading stands in the tokens of Go source, and how it gets on after a fault. Reading never
stops at a fault, since a later fault may stand before it. A fault on the line of the last one is
taken for its consequence and not noted, and after some faults no more are noted.
-/

namespace Schemata.GoSyntax

open Text

structure Cursor where
  current : Token
  rest : List Token
  lastStop : Place := {}
  /-- The faults, the latest first. -/
  faults : List Place := []
  /-- No more faults are noted. -/
  isFull : Bool := false
  /-- How deep in brackets reading stands; below zero in the head of a statement, where a brace
  opens the body. -/
  level : Int := 0
  /-- Whether an equals sign is read as a comparison. -/
  comparesAssign : Bool := false
  /-- Where reading last went on after a fault, and how often without getting on. -/
  resumed : Place := {}
  resumedCount : Nat := 0

abbrev Parse := StateM Cursor

def peek : Parse Token := do return (← get).current

def here : Parse Place := do return (← get).current.place

/-- Moves to the next token; the end of the file is never passed. -/
def next : Parse Unit :=
  modify fun c =>
    match c.rest with
    | [] => c
    | t :: ts =>
      { c with
        current := t
        rest := ts
        lastStop := c.current.stop
        faults := if c.isFull then c.faults else t.faults.reverse ++ c.faults }

def fault (place : Place) : Parse Unit :=
  modify fun c =>
    if c.isFull then c
    else if (c.faults.head?.map (·.line == place.line)).getD false then c
    else if c.faults.length > 10 then { c with isFull := true }
    else { c with faults := place :: c.faults }

def isAt (text : String) : Parse Bool := do return (← peek).is text

def isAtAny (texts : List String) : Parse Bool := do return texts.any (← peek).is

def isAtKind (kind : TokenKind) : Parse Bool := do return (← peek).kind = kind

/-- Whether the file goes on and the current token is not the given one. -/
def goesOnTo (closing : String) : Parse Bool := do
  let t ← peek
  return !(t.is closing) && t.kind ≠ .endOfFile

/-- Reads the given token, or notes a fault and passes the one that stands there. -/
def expect (text : String) : Parse Place := do
  let place ← here
  unless ← isAt text do fault place
  next
  return place

/-- Reads a closing bracket. A line end before it lacks a comma. -/
def expectClosing (text : String) : Parse Place := do
  let t ← peek
  if t.isLineEnd then
    fault t.place
    next
  expect text

/-- Goes on at a token of the given sort. Without any progress a few tries are allowed, then a
token is passed. -/
def resumeWithin (isTarget : Token → Bool) : Nat → Parse Unit
  | 0 => return
  | left + 1 => do
    let c ← get
    if c.current.kind = .endOfFile then return
    if isTarget c.current then
      if c.current.place = c.resumed ∧ c.resumedCount < 10 then
        set { c with resumedCount := c.resumedCount + 1 }
        return
      if c.resumed.isBefore c.current.place then
        set { c with resumed := c.current.place, resumedCount := 0 }
        return
    next
    resumeWithin isTarget left

def resumeAt (isTarget : Token → Bool) : Parse Unit := do
  resumeWithin isTarget ((← get).rest.length + 1)

/-- The keywords that start a statement and nothing else. -/
def startsStatement (t : Token) : Bool :=
  ["break", "const", "continue", "defer", "fallthrough", "for", "go", "goto", "if", "return",
    "select", "switch", "type", "var"].any t.is

/-- The keywords that start a declaration and nothing else. -/
def startsDeclaration (t : Token) : Bool := ["import", "const", "type", "var"].any t.is

def endsExpression (t : Token) : Bool :=
  t.kind = .semicolon || [",", ":", ")", "]", r"}"].any t.is

/-- Reads the end of a statement, which may be left out before a closing bracket. -/
def expectEnd : Parse Unit := do
  let t ← peek
  if t.is ")" || t.is r"}" then return
  if t.is "," then
    fault t.place
    next
  else if t.kind = .semicolon then next
  else
    fault t.place
    resumeAt startsStatement

/-- Whether a list goes on; a missing comma is noted as a fault. -/
def isAtComma (closing : String) : Parse Bool := do
  let t ← peek
  if t.is "," then return true
  if t.is closing then return false
  fault t.place
  return true

def identifier : Parse Identifier := do
  let t ← peek
  if t.kind = .identifier then
    next
    return ⟨t.place, t.text⟩
  else
    fault t.place
    next
    return ⟨t.place, "_"⟩

/-- Reads with the level changed, and puts it back. -/
def atLevel {α : Type} (change : Int → Int) (p : Parse α) : Parse α := do
  let old := (← get).level
  modify fun c => { c with level := change old }
  let a ← p
  modify fun c => { c with level := old }
  return a

def deeper {α : Type} (p : Parse α) : Parse α := atLevel (· + 1) p

def inHead {α : Type} (p : Parse α) : Parse α := atLevel (fun _ => -1) p

/-- Reads with an equals sign meaning a comparison or not, and puts that back. -/
def comparing {α : Type} (on : Bool) (p : Parse α) : Parse α := do
  let old := (← get).comparesAssign
  modify fun c => { c with comparesAssign := on }
  let a ← p
  modify fun c => { c with comparesAssign := old }
  return a

end Schemata.GoSyntax
