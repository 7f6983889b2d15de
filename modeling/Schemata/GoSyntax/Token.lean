import Schemata.Text.Place

/-!
Tokens of Go source. A token carries the comments before it and the faults that were met while it
was read.
-/

namespace Schemata.GoSyntax

open Text

inductive TokenKind where
  | identifier
  | integer
  | floating
  | imaginary
  | rune
  | string
  | keyword
  | operator
  /-- A semicolon, or a line end that stands for one. -/
  | semicolon
  /-- A character that starts no token. -/
  | illegal
  | endOfFile
deriving DecidableEq, Repr

structure Comment where
  text : String
  place : Place
  lastLine : Nat
deriving DecidableEq, Repr

structure Token where
  kind : TokenKind
  text : String := ""
  place : Place
  stop : Place
  comments : List Comment := []
  faults : List Place := []
deriving DecidableEq, Repr

namespace Token

def is (t : Token) (text : String) : Bool :=
  (t.kind = .keyword || t.kind = .operator) && t.text == text

def isLiteral (t : Token) : Bool :=
  match t.kind with
  | .identifier | .integer | .floating | .imaginary | .rune | .string => true
  | _ => false

def isLineEnd (t : Token) : Bool := t.kind = .semicolon && t.text == "\n"

def endsStatement (kind : TokenKind) (text : String) : Bool :=
  match kind with
  | .identifier | .integer | .floating | .imaginary | .rune | .string => true
  | .keyword => ["break", "continue", "fallthrough", "return"].contains text
  | .operator => ["++", "--", ")", "]", r"}"].contains text
  | _ => false

end Token

def keywords : List String :=
  ["break", "case", "chan", "const", "continue", "default", "defer", "else", "fallthrough", "for",
    "func", "go", "goto", "if", "import", "interface", "map", "package", "range", "return",
    "select", "struct", "switch", "type", "var"]

/-- The operators, longer ones before those they start with. -/
def operators : List String :=
  ["<<=", ">>=", "&^=", "...", "&&", "||", "<-", "++", "--", "==", "!=", "<=", ">=", ":=", "+=",
    "-=", "*=", "/=", "%=", "&=", "|=", "^=", "<<", ">>", "&^", "+", "-", "*", "/", "%", "&", "|",
    "^", "<", ">", "=", "!", "(", ")", "[", "]", r"{", r"}", ",", ".", ":", "~"]

/-- How tightly a binary operator binds, zero for what is none. -/
def precedence (operator : String) : Nat :=
  match operator with
  | "||" => 1
  | "&&" => 2
  | "==" | "!=" | "<" | "<=" | ">" | ">=" => 3
  | "+" | "-" | "|" | "^" => 4
  | "*" | "/" | "%" | "<<" | ">>" | "&" | "&^" => 5
  | _ => 0

end Schemata.GoSyntax
