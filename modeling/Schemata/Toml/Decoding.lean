import Schemata.Data.Tree
import Schemata.Text.Case
import Schemata.Toml.Seen

/-!
TOML texts read into trees of a wanted shape. A value of the wrong kind ends reading; keys that
the shape does not know are collected and refused at the end. Names of fields do not tell
capital letters apart.
-/

namespace Schemata.Toml

open Data Text

/-! ### Numbers -/

/-- The digits of a number without the underscores between them; the fault is where one stands
alone. -/
def stripUnderscores (offset : Nat) (cs : List Char) : Except Fault (List Char) :=
  let start := if cs.head? == some '+' || cs.head? == some '-' then 1 else 0
  let body := cs.drop start
  if body.isEmpty then .ok cs
  else if body.head? == some '_' then .error (.unexpected (offset + start))
  else if cs.getLast? == some '_' then .error (.unexpected (offset + cs.length - 1))
  else
    let rec doubled (i : Nat) : List Char → Option Nat
      | '_' :: '_' :: _ => some i
      | _ :: rest => doubled (i + 1) rest
      | [] => none
    match doubled 0 cs with
    | some i => .error (.unexpected (offset + i))
    | none => .ok (cs.filter (· != '_'))

def natIn? (base : Nat) (cs : List Char) : Option Nat :=
  if cs.isEmpty then none
  else cs.foldlM (fun n c => match hexValue? c with
    | some d => if d < base then some (n * base + d) else none
    | none => none) 0

def bounded? (n : Int) : Option Int64 :=
  if -(Int.pow 2 63) ≤ n ∧ n < Int.pow 2 63 then some (Int64.ofInt n) else none

/-- The number in another base, as its digits behind the announcement spell it. -/
def inBase (base offset : Nat) (digits : List Char) : Except Fault Int64 := do
  if digits.isEmpty then throw (.unexpected offset)
  let cs ← stripUnderscores (offset + 2) digits
  match (natIn? base cs).bind fun n => bounded? n with
  | some n => return n
  | none => throw (.unexpected offset)

def integerOf (offset : Nat) (digits : List Char) : Except Fault Int64 := do
  match digits with
  | '0' :: 'x' :: rest => inBase 16 offset rest
  | '0' :: 'o' :: rest => inBase 8 offset rest
  | '0' :: 'b' :: rest => inBase 2 offset rest
  | _ =>
    let cs ← stripUnderscores offset digits
    let (negative, body) := match cs with
      | '-' :: rest => (true, rest)
      | '+' :: rest => (false, rest)
      | cs => (false, cs)
    if body.length > 1 ∧ body.head? = some '0' then throw (.unexpected offset)
    match (natIn? 10 body).bind fun n => bounded? (if negative then -(n : Int) else n) with
    | some n => return n
    | none => throw (.unexpected offset)

/-! ### Values -/

/-- What is noted while reading: the places of keys that are not known. -/
structure Decoding where
  missing : List Nat := []

abbrev Decode := StateT Decoding (Except Fault)

def noteMissing (key : List KeyPart) : Decode Unit :=
  match key with
  | part :: _ => modify fun s => { s with missing := s.missing ++ [part.offset] }
  | [] => return

variable {ρ : Type} (fields : ρ → List (String × Shape ρ))

def fieldOf? (r : ρ) (name : String) : Option (String × Shape ρ) :=
  match (fields r).lookup name with
  | some shape => some (name, shape)
  | none => ((fields r).lookup (lower name)).map (lower name, ·)

def Value.offset? : Value → Option Nat
  | .text o _ | .integer o _ | .float o _ | .flag o _ | .moment o _ _ | .table o _ => some o
  | .array _ => none

/-- A value in a place where it does not fit. -/
def mismatch (v : Value) : Fault :=
  match v.offset? with
  | some o => .unexpected o
  | none => .unplaced

/-- What stands behind something optional, or would. -/
def settled (shape : Shape ρ) (old : Tree) : Tree :=
  match old with
  | .none => .fresh shape
  | old => old

mutual

/-- A value read over what stands in its place. -/
def decodeValue (fuel : Nat) (shape : Shape ρ) (old : Tree) (v : Value) : Decode Tree := do
  match fuel with
  | 0 => throw .unplaced
  | fuel + 1 =>
    match shape with
    | .optional inner => decodeValue fuel inner (settled inner old) v
    | .text =>
      match v with
      | .text _ s => return .text s
      | .integer o digits =>
        discard (integerOf o digits)
        throw (mismatch v)
      | v => throw (mismatch v)
    | .flag =>
      match v with
      | .flag _ b => return .flag b
      | .integer o digits =>
        discard (integerOf o digits)
        throw (mismatch v)
      | v => throw (mismatch v)
    | .number =>
      match v with
      | .integer o digits => return .number (← integerOf o digits)
      | v => throw (mismatch v)
    | .list entry =>
      match v with
      | .array entries => return .list (← decodeEntries fuel entry entries)
      | v => throw (mismatch v)
    | .record r =>
      match v with
      | .table _ pairs => return .record (← decodePairs fuel r old.fields pairs)
      | v => throw (mismatch v)
    | .dict _ => throw (mismatch v)

def decodeEntries (fuel : Nat) (shape : Shape ρ) (entries : List Value) : Decode (List Tree) := do
  match fuel with
  | 0 => throw .unplaced
  | fuel + 1 =>
    match entries with
    | [] => return []
    | v :: rest =>
      let t ← decodeValue fuel shape (.fresh shape) v
      return t :: (← decodeEntries fuel shape rest)

def decodePairs (fuel : Nat) (r : ρ) (done : List (String × Tree))
    (pairs : List (List KeyPart × Value)) : Decode (List (String × Tree)) := do
  match fuel with
  | 0 => throw .unplaced
  | fuel + 1 =>
    match pairs with
    | [] => return done
    | (key, v) :: rest =>
      let t ← decodePair fuel (.record r) (.record done) key key v
      decodePairs fuel r t.fields rest

/-- Puts a value under what is left of a dotted key; `whole` is all of the key. -/
def decodePair (fuel : Nat) (shape : Shape ρ) (old : Tree) (whole key : List KeyPart) (v : Value) :
    Decode Tree := do
  match fuel with
  | 0 => throw .unplaced
  | fuel + 1 =>
    match key with
    | [] => decodeValue fuel shape old v
    | part :: rest =>
      match shape with
      | .optional inner => decodePair fuel inner (settled inner old) whole key v
      | .record r =>
        match fieldOf? fields r part.name with
        | none =>
          noteMissing whole
          return old
        | some (name, shape) =>
          let inner := (old.fields.lookup name).getD (.fresh shape)
          let t ← decodePair fuel shape inner whole rest v
          return .record (Tree.setField old.fields name t)
      | _ => throw .unplaced

end

/-! ### Tables -/

/-- Where a header leads: to a place, or to a key that is not known. -/
inductive Reached where
  | place (t : Tree)
  | missing

def setLast (entries : List Tree) (t : Tree) : List Tree := entries.dropLast ++ [t]

/-- Changes what a table header leads to. Lists are entered at their last entry; `part` is the
part of the key that led here. -/
def atTable (fuel : Nat) (shape : Shape ρ) (old : Tree) (part : KeyPart) (key : List KeyPart)
    (act : Shape ρ → Tree → Decode Tree) : Decode Reached := do
  match fuel with
  | 0 => throw .unplaced
  | fuel + 1 =>
    match shape, key with
    | .list entry, key =>
      match old.entries.getLast? with
      | none => throw (.unexpected part.offset)
      | some last =>
        match ← atTable fuel entry last part key act with
        | .place t => return .place (.list (setLast old.entries t))
        | .missing => return .missing
    | shape, [] => return .place (← act shape old)
    | .optional inner, key => atTable fuel inner (settled inner old) part key act
    | .record r, part :: rest =>
      match fieldOf? fields r part.name with
      | none => return .missing
      | some (name, shape) =>
        let inner := (old.fields.lookup name).getD (.fresh shape)
        match ← atTable fuel shape inner part rest act with
        | .place t => return .place (.record (Tree.setField old.fields name t))
        | .missing => return .missing
    | _, _ => throw .unplaced

/-- Adds an entry to the list that the header of an array of tables leads to. -/
def addEntry (fuel : Nat) (shape : Shape ρ) (old : Tree) (key : List KeyPart) : Decode Reached := do
  match fuel with
  | 0 => throw .unplaced
  | fuel + 1 =>
    match shape, key with
    | .list entry, [] => return .place (.list (old.entries ++ [.fresh entry]))
    | _, [] => throw .unplaced
    | .list entry, key =>
      match old.entries.getLast? with
      | none => throw .unplaced
      | some last =>
        match ← addEntry fuel entry last key with
        | .place t => return .place (.list (setLast old.entries t))
        | .missing => return .missing
    | .optional inner, key => addEntry fuel inner (settled inner old) key
    | .record r, part :: rest =>
      match fieldOf? fields r part.name with
      | none => return .missing
      | some (name, shape) =>
        let inner := (old.fields.lookup name).getD (.fresh shape)
        match ← addEntry fuel shape inner rest with
        | .place t => return .place (.record (Tree.setField old.fields name t))
        | .missing => return .missing
    | _, _ => throw .unplaced

structure Filling where
  tree : Tree
  tracking : Tracking := {}
  /-- The header that pairs belong to, none when it led nowhere. -/
  header : Option (List KeyPart) := some []

def fill (root : ρ) (fuel : Nat) (s : Filling) (e : Expression) : Decode Filling := do
  let skipped := match s.header, e with
    | none, .pair _ _ => true
    | _, _ => false
  if skipped then return s
  match s.tracking.add e with
  | none => throw .unplaced
  | some tracking =>
    let s := { s with tracking }
    let start : KeyPart := ⟨"", 0⟩
    match e with
    | .pair key v =>
      let act := fun shape old => decodePair fields fuel shape old key key v
      match ← atTable fields fuel (.record root) s.tree start (s.header.getD []) act with
      | .place tree => return { s with tree }
      | .missing => return s
    | .table key =>
      let act := fun _ old => pure old
      match ← atTable fields fuel (.record root) s.tree start key act with
      | .place tree => return { s with tree, header := some key }
      | .missing =>
        noteMissing key
        return { s with header := none }
    | .arrayTable key =>
      match ← addEntry fields fuel (.record root) s.tree key with
      | .place tree => return { s with tree, header := some key }
      | .missing =>
        noteMissing key
        return { s with header := none }

def fillFrom (root : ρ) (size fuel : Nat) (first : Bool) (cursor : Cursor) (s : Filling) :
    Decode Tree := do
  match fuel with
  | 0 => throw .unplaced
  | fuel + 1 =>
    let (e, cursor) ← (next (size + 1) first).run cursor
    match e with
    | none => return s.tree
    | some e =>
      let s ← fill fields root (8 * size + 64) s e
      fillFrom root size fuel false cursor s

/-- Reads a text into a record; the first key that is not known is a fault. -/
def readRecord (root : ρ) (bytes : List UInt8) : Except Fault Tree := do
  let size := bytes.length
  let (t, s) ← (fillFrom fields root size (size + 2) true ⟨bytes, 0⟩ { tree := .record [] }).run {}
  match s.missing with
  | offset :: _ => throw (.unexpected offset)
  | [] => return t

end Schemata.Toml
