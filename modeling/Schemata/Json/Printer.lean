import Schemata.Document.Tree
import Schemata.Schema.Show

/-!
JSON text of a tree: two blanks an indentation step, one field or entry a line, and nothing
between the brackets of an empty list.
-/

namespace Schemata.Json

open Text Data

/-- A character inside quotes. Characters that mean something in markup are escaped too. -/
def escape (c : Char) : List Char :=
  match c with
  | '"' => ['\\', '"']
  | '\\' => ['\\', '\\']
  | '\n' => ['\\', 'n']
  | '\r' => ['\\', 'r']
  | '\t' => ['\\', 't']
  | c =>
    if c.toNat < 0x20 ∨ c = '<' ∨ c = '>' ∨ c = '&' ∨ c.toNat = 0x2028 ∨ c.toNat = 0x2029 then
      '\\' :: 'u' :: hex 4 c.toNat
    else [c]

def literal (s : String) : String :=
  String.ofList ('"' :: s.toList.flatMap escape ++ ['"'])

mutual

/-- A value whose first character stands after `indent`. -/
def printTree (indent : String) : Tree → String
  | .none => "null"
  | .text s => literal s
  | .flag b => if b then "true" else "false"
  | .number n => showInt n
  | .list [] => "[]"
  | .list ts => "[\n" ++ printEntries (indent ++ "  ") ts ++ indent ++ "]"
  | .record [] => "{}"
  | .record fields => r"{" ++ "\n" ++ printFields (indent ++ "  ") fields ++ indent ++ r"}"

def printEntries (indent : String) : List Tree → String
  | [] => ""
  | [t] => indent ++ printTree indent t ++ "\n"
  | t :: ts => indent ++ printTree indent t ++ ",\n" ++ printEntries indent ts

def printFields (indent : String) : List (String × Tree) → String
  | [] => ""
  | [(name, t)] => indent ++ literal name ++ ": " ++ printTree indent t ++ "\n"
  | (name, t) :: fields =>
    indent ++ literal name ++ ": " ++ printTree indent t ++ ",\n" ++ printFields indent fields

end

def print (d : Document) : String := printTree "" d.toTree ++ "\n"

end Schemata.Json
