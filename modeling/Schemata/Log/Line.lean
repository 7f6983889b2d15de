import Schemata.Log
import Schemata.Text.Quoted

/-!
Entries as lines of text. A line for people has the level, the message and the values with tabs
between them; the other form is one JSON object to a line. Time is not measured, so the time of
an entry is zero.
-/

namespace Schemata.Log

open Text

/-- One character as it stands in a JSON text. Only what has to be is escaped. -/
def escape (c : Char) : List Char :=
  if c = '"' ∨ c = '\\' then ['\\', c]
  else if c = '\n' then ['\\', 'n']
  else if c = '\r' then ['\\', 'r']
  else if c = '\t' then ['\\', 't']
  else if c.toNat < 0x20 then '\\' :: 'u' :: hex 4 c.toNat
  else [c]

def quoted (s : String) : String := String.ofList ('"' :: s.toList.flatMap escape ++ ['"'])

inductive Form where
  | plain
  | json
deriving DecidableEq, Repr

def Value.render (form : Form) : Value → String
  | .text s => quoted s
  | .number n => toString n
  | .duration =>
    match form with
    | .plain => quoted "0s"
    | .json => "0"

def Entry.valuesText (e : Entry) : String :=
  let one := fun ((name, v) : String × Value) => quoted name ++ ": " ++ v.render .plain
  if e.values.isEmpty then ""
  else "\t" ++ r"{" ++ String.intercalate ", " (e.values.map one) ++ r"}"

def Level.title (l : Level) : String := l.name.toUpper

def Entry.line (form : Form) (e : Entry) : String :=
  match form with
  | .plain => e.level.title ++ "\t" ++ e.message ++ e.valuesText ++ "\n"
  | .json =>
    let fields := [("level", quoted e.level.name), ("ts", "0"), ("msg", quoted e.message)] ++
      e.values.map fun (name, v) => (name, v.render .json)
    r"{" ++ String.intercalate "," (fields.map fun (name, v) => quoted name ++ ":" ++ v) ++ r"}" ++
      "\n"

def lines (form : Form) (least : Level) (entries : List Entry) : String :=
  String.join ((entries.filter fun e => least.rank ≤ e.level.rank).map (Entry.line form))

end Schemata.Log
