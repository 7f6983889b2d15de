import Schemata.Text.Place

/-!
Tokens of the block language.
-/

namespace Schemata.Hcl

open Text

inductive TokenKind where
  | openBrace
  | closeBrace
  | openBracket
  | closeBracket
  | openParen
  | closeParen
  | openQuote
  | closeQuote
  | openHeredoc
  | closeHeredoc
  | heredocText
  | quotedText
  | interpolation
  | directive
  | sequenceEnd
  | star
  | slash
  | plus
  | minus
  | percent
  | equal
  | equals
  | notEquals
  | less
  | lessEqual
  | greater
  | greaterEqual
  | and
  | or
  | bang
  | dot
  | comma
  | ellipsis
  | arrow
  | question
  | colon
  | doubleColon
  | number
  | identifier
  | comment
  | newline
  | endOfFile
  /-- A sign of other languages, a line break inside quotation marks, or anything else that is
  no token. -/
  | invalid
deriving DecidableEq, Repr

structure Token where
  kind : TokenKind
  text : List Char
  place : Place
  /-- How many blanks stand before it. -/
  spaces : Nat := 0
deriving DecidableEq, Repr

namespace TokenKind

def opposite? : TokenKind → Option TokenKind
  | .openBrace => some .closeBrace
  | .openBracket => some .closeBracket
  | .openParen => some .closeParen
  | .openQuote => some .closeQuote
  | .openHeredoc => some .closeHeredoc
  | .closeBrace => some .openBrace
  | .closeBracket => some .openBracket
  | .closeParen => some .openParen
  | .closeQuote => some .openQuote
  | .closeHeredoc => some .openHeredoc
  | .interpolation | .directive => some .sequenceEnd
  | .sequenceEnd => some .interpolation
  | _ => none

end TokenKind

def Token.isWord (t : Token) (word : String) : Bool :=
  t.kind == .identifier && t.text == word.toList

/-- Whether a token ends its line: a line break, or a comment that includes one. -/
def Token.endsLine (t : Token) : Bool :=
  t.kind == .newline || (t.kind == .comment && t.text.getLast? == some '\n')

end Schemata.Hcl
