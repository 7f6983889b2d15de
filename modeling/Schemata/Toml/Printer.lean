import Schemata.Data.Tree
import Schemata.Schema.Show
import Schemata.Toml.Expression

/-!
TOML text of a record. Plain fields come first, then a table for each record and an array of
tables for each list of records, with an empty line before each header. A list with a missing
entry stands on one line, where a record with nothing given takes the missing place.
-/

namespace Schemata.Toml

open Data Text

def escaped (c : Char) : List Char :=
  match c with
  | '"' => ['\\', '"']
  | '\\' => ['\\', '\\']
  | '\n' => ['\\', 'n']
  | '\r' => ['\\', 'r']
  | '\t' => ['\\', 't']
  | c =>
    if c.toNat = 8 then ['\\', 'b']
    else if c.toNat = 12 then ['\\', 'f']
    else if c.toNat < 0x20 ∨ c.toNat = 0x7F then
      '\\' :: 'u' :: (hex 4 c.toNat).map Char.toUpper
    else [c]

/-- Texts stand in single quotes unless they hold one, a line break or a control character. -/
def quoteText (s : String) : String :=
  let needed := s.toList.any fun c =>
    c == '\'' || c == '\r' || c == '\n' || (c.toNat < 0x20 && c != '\t') || c.toNat == 0x7F
  if needed then String.ofList ('"' :: s.toList.flatMap escaped ++ ['"'])
  else "'" ++ s ++ "'"

def isTable : Tree → Bool
  | .record _ => true
  | .list ts => !ts.isEmpty && ts.all fun
    | .record _ => true
    | _ => false
  | _ => false

mutual

/-- A value on one line; `blank` is written where an entry is missing. -/
def inlineValue (blank : String) : Tree → String
  | .none => blank
  | .text s => quoteText s
  | .flag b => if b then "true" else "false"
  | .number n => showInt n
  | .list ts => "[" ++ String.intercalate ", " (inlineValues blank ts) ++ "]"
  | .record fields => r"{" ++ String.intercalate ", " (inlineFields blank fields) ++ r"}"

def inlineValues (blank : String) : List Tree → List String
  | [] => []
  | t :: ts => inlineValue blank t :: inlineValues blank ts

def inlineFields (blank : String) : List (String × Tree) → List String
  | [] => []
  | (name, t) :: fields => (name ++ " = " ++ inlineValue blank t) :: inlineFields blank fields

end

/-- The fields that stand on lines of their own. -/
def plainFields (blank : String) (fields : List (String × Tree)) : String :=
  String.join (fields.filterMap fun (name, t) =>
    if isTable t then none else some (name ++ " = " ++ inlineValue blank t ++ "\n"))

mutual

/-- The tables of a record below a path; `spaced` tells that something stands before them. -/
def printTables (blank path : String) (spaced : Bool) : List (String × Tree) → String
  | [] => ""
  | (name, .record fields) :: rest =>
    let here := if path = "" then name else path ++ "." ++ name
    (if spaced then "\n" else "") ++ "[" ++ here ++ "]\n" ++ plainFields blank fields ++
      printTables blank here (fields.any fun (_, t) => !isTable t) fields ++
      printTables blank path true rest
  | (name, .list ts) :: rest =>
    let here := if path = "" then name else path ++ "." ++ name
    if isTable (.list ts) then
      (if spaced then "\n" else "") ++ printArray blank here false ts ++
        printTables blank path true rest
    else printTables blank path spaced rest
  | _ :: rest => printTables blank path spaced rest

def printArray (blank path : String) (spaced : Bool) : List Tree → String
  | [] => ""
  | .record fields :: rest =>
    (if spaced then "\n" else "") ++ "[[" ++ path ++ "]]\n" ++ plainFields blank fields ++
      printTables blank path (fields.any fun (_, t) => !isTable t) fields ++
      printArray blank path true rest
  | _ :: rest => printArray blank path spaced rest

end

/-- A record as a text file; `blank` is written where an entry is missing. -/
def print (blank : String) (t : Tree) : String :=
  plainFields blank t.fields ++
    printTables blank "" (t.fields.any fun (_, t) => !isTable t) t.fields

end Schemata.Toml
