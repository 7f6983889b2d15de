/-!
Templates. In a template `{i}` stands for the argument at position `i`, a number of at most three
digits, and `{...}` for all arguments. Every other brace is text.
-/

namespace Schemata

namespace Template

inductive Piece where
  | literal (c : Char)
  | argument (position : Nat)
  | allArguments
deriving DecidableEq, Repr

def isDecimal (c : Char) : Bool := '0' ≤ c && c ≤ '9'

def decimalValue (digits : List Char) : Nat :=
  digits.foldl (fun n c => 10 * n + (c.toNat - 48)) 0

/-- The placeholder whose opening brace was just read, with the number of characters it still
takes. -/
def placeholder? (rest : List Char) : Option (Piece × Nat) :=
  let inner := rest.takeWhile (· != '}')
  if inner.length = rest.length then none
  else if inner = ['.', '.', '.'] then some (.allArguments, 4)
  else if !inner.isEmpty && inner.length ≤ 3 && inner.all isDecimal then
    some (.argument (decimalValue inner), inner.length + 1)
  else none

/-- The pieces after `skip` more characters. -/
def piecesFrom : (skip : Nat) → List Char → List Piece
  | _, [] => []
  | skip + 1, _ :: rest => piecesFrom skip rest
  | 0, c :: rest =>
    match (if c = '{' then placeholder? rest else none) with
    | some (piece, length) => piece :: piecesFrom length rest
    | none => .literal c :: piecesFrom 0 rest

variable (template : String)

def pieces : List Piece := piecesFrom 0 template.toList

/-- The text of one piece; `missing` stands for an argument that was not given. -/
def Piece.fill (args : List String) (missing : String) : Piece → String
  | .literal c => c.toString
  | .argument i => args.getD i missing
  | .allArguments => String.intercalate ", " args

/-- Fills a template. Inserted text is not read again. -/
def substitute (args : List String) (missing : String) : String :=
  String.join ((pieces template).map (Piece.fill args missing))

/-- The placeholders that the opening braces of a text begin. Each brace is looked at on its own,
whatever the ones before it began. -/
def placeholders : List Char → List Piece
  | [] => []
  | c :: rest =>
    match (if c = '{' then placeholder? rest else none) with
    | some (piece, _) => piece :: placeholders rest
    | none => placeholders rest

/-- The highest position a template asks for, if it asks for any. -/
def highest? : Option Nat :=
  (placeholders template.toList).foldl
    (fun best piece => match piece with
      | .argument i => some (max i (best.getD 0))
      | _ => best)
    none

def isVariadic : Bool :=
  (placeholders template.toList).contains .allArguments

def isClosed : Bool :=
  (highest? template).isNone && !isVariadic template

end Template

end Schemata
