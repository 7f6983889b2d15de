/-!
Trees of records, lists and scalars, and the shapes that say which trees are wanted. A data
format reads every record by the same code from the table of its fields.
-/

namespace Schemata.Data

inductive Tree where
  /-- Nothing was given: a null, or a field that is not there. -/
  | none
  | text (s : String)
  | flag (b : Bool)
  | number (n : Int64)
  | list (entries : List Tree)
  | record (fields : List (String × Tree))

/-- What may stand in a place; `ρ` names the kinds of record. -/
inductive Shape (ρ : Type) where
  | text
  | flag
  | number
  | list (entry : Shape ρ)
  /-- Something that null takes away. -/
  | optional (shape : Shape ρ)
  | record (r : ρ)
  /-- Any names, each with an entry of one shape. -/
  | dict (entry : Shape ρ)
deriving DecidableEq, Repr

namespace Tree

/-- What stands in a place before anything is read. -/
def fresh {ρ : Type} : Shape ρ → Tree
  | .text => .text ""
  | .flag => .flag false
  | .number => .number 0
  | .record _ => .record []
  | .list _ | .optional _ | .dict _ => .none

/-- The fields of a record, none for anything else. -/
def fields : Tree → List (String × Tree)
  | .record fields => fields
  | _ => []

def field (t : Tree) (name : String) : Tree := (t.fields.lookup name).getD .none

def setField (fields : List (String × Tree)) (name : String) (t : Tree) : List (String × Tree) :=
  match fields with
  | [] => [(name, t)]
  | (n, old) :: rest => if n = name then (n, t) :: rest else (n, old) :: setField rest name t

def asText : Tree → String
  | .text s => s
  | _ => ""

def text? : Tree → Option String
  | .text s => some s
  | _ => Option.none

def asFlag : Tree → Bool
  | .flag b => b
  | _ => false

def flag? : Tree → Option Bool
  | .flag b => some b
  | _ => Option.none

def asNumber : Tree → Int64
  | .number n => n
  | _ => 0

def entries : Tree → List Tree
  | .list ts => ts
  | _ => []

def asTexts (t : Tree) : List String := t.entries.map asText

end Tree

end Schemata.Data
