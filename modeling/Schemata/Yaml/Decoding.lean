import Schemata.Data.Tree
import Schemata.Yaml.Node

/-!
YAML nodes read into trees of a wanted shape. Values of the wrong kind are noted and reading goes
on, so that the first of them can be told; only a contradiction between a tag and its scalar, or
a name inside what it names, ends reading at once.
-/

namespace Schemata.Yaml

open Data

/-- What the reader of values is told and what it notes. -/
structure Decoding where
  /-- The line of the first value that does not fit. -/
  misfit : Option Nat := none

/-- Fields already given by the mapping that merges another, none outside a merge. -/
abbrev Merged := Option (List String)

abbrev Decode := StateT Decoding (Except Fault)

def noteMisfit (line : Nat) : Decode Unit :=
  modify fun s => if s.misfit.isNone then { s with misfit := some line } else s

def isMergeKey : Node → Bool
  | .scalar _ tag text => text == "<<" && tag == "!!merge"
  | _ => false

def Node.resolved : Node → Node
  | .alias _ _ target => target.resolved
  | n => n

def Node.isNull : Node → Bool
  | .scalar _ tag _ => tag == "!!null"
  | .sequence _ tag _ => tag == "!!null"
  | .mapping _ tag _ => tag == "!!null"
  | _ => false

/-- Notes every key that stands twice in a mapping; tells whether there is one. -/
def repeatedKeys : List (Node × Node) → Decode Bool
  | [] => return false
  | (k, _) :: rest => do
    let mut found := false
    for (other, _) in rest do
      if k.sameKind other && k.text == other.text then
        noteMisfit other.line
        found := true
    return (← repeatedKeys rest) || found

/-- A scalar as a tree; none when it does not fit. Null fits where something optional is wanted
and is otherwise passed over. -/
def scalarValue {ρ : Type} (shape : Shape ρ) (line : Nat) (tag text : String) :
    Decode (Option Tree) := do
  match resolve? tag text with
  | none => throw ⟨0⟩
  | some .null =>
    match shape with
    | .optional _ | .list _ | .dict _ => return some .none
    | _ => return none
  | some meaning =>
    let rec fit : Shape ρ → Option Tree
      | .text => some (.text text)
      | .flag =>
        match meaning with
        | .bool b => some (.flag b)
        | .text =>
          if ["y", "Y", "yes", "on"].contains text then some (.flag true)
          else if ["n", "N", "no", "off"].contains text then some (.flag false)
          else none
        | _ => none
      | .number =>
        match meaning with
        | .int n => if n < Int.pow 2 63 then some (.number (Int64.ofInt n)) else none
        | .float (some n) => some (.number (Int64.ofInt n))
        | _ => none
      | .optional shape => fit shape
      | _ => none
    match fit shape with
    | some t => return some t
    | none =>
      noteMisfit line
      return none

variable {ρ : Type} (fields : ρ → List (String × Shape ρ)) (strict : Bool)

mutual

/-- The value of a node; none when it does not fit. `old` is what a mapping is read over. -/
def decode (merged : Merged) (fuel : Nat) (shape : Shape ρ) (old : Tree) (node : Node) :
    Decode (Option Tree) := do
  match fuel with
  | 0 => throw ⟨0⟩
  | fuel + 1 =>
    match node with
    | .cycle .. => throw ⟨0⟩
    | .alias _ _ target => decode merged fuel shape old target
    | .scalar line tag text => scalarValue shape line tag text
    | .sequence line _ entries =>
      match shape with
      | .list entry => return some (.list (← decodeEntries fuel entry entries))
      | .optional inner =>
        if node.isNull then
          noteMisfit line
          return none
        decode merged fuel inner old node
      | _ =>
        noteMisfit line
        return none
    | .mapping line _ pairs =>
      match shape with
      | .optional inner =>
        if node.isNull then
          noteMisfit line
          return none
        let old := match old with
          | .none => .fresh inner
          | old => old
        decode merged fuel inner old node
      | _ =>
        if ← repeatedKeys pairs then return none
        match shape with
        | .record r =>
          return some (.record (← decodeFields merged fuel r old.fields pairs none))
        | .dict entry =>
          return some (.record (← decodeDict fuel entry old.fields pairs))
        | _ =>
          noteMisfit line
          return none

/-- The entries of a list; those that do not fit are left out. -/
def decodeEntries (fuel : Nat) (shape : Shape ρ) (entries : List Node) : Decode (List Tree) := do
  match fuel with
  | 0 => throw ⟨0⟩
  | fuel + 1 =>
    match entries with
    | [] => return []
    | n :: rest =>
      let t ← decode none fuel shape (.fresh shape) n
      let ts ← decodeEntries fuel shape rest
      return match t with
        | some t => t :: ts
        | none => ts

/-- The fields of a record from a list of pairs on. Merging comes last, and what it brings
yields to what was given. -/
def decodeFields (merged : Merged) (fuel : Nat) (r : ρ) (done : List (String × Tree))
    (pairs : List (Node × Node)) (mergeNode : Option (Node × List (Node × Node))) :
    Decode (List (String × Tree)) := do
  match fuel with
  | 0 => throw ⟨0⟩
  | fuel + 1 =>
    match pairs with
    | [] =>
      match mergeNode with
      | none => return done
      | some (source, all) =>
        let given := match merged with
          | some given => given
          | none => all.filterMap fun (k, _) => match k.resolved with
            | .scalar _ _ text => some text
            | _ => none
        decodeMerge given fuel r done source
    | (k, v) :: rest =>
      if isMergeKey k then
        decodeFields merged fuel r done rest (some (v, pairs))
      else
        let name ← decode none fuel .text (.text "") k
        match name with
        | some (.text name) =>
          if (merged.getD []).contains name then
            decodeFields merged fuel r done rest mergeNode
          else
            let merged := merged.map (name :: ·)
            match (fields r).lookup name with
            | some shape =>
              let old := (done.lookup name).getD (.fresh shape)
              let t ← decode none fuel shape old v
              let done := match t with
                | some t => Tree.setField done name t
                | none => done
              decodeFields merged fuel r done rest mergeNode
            | none =>
              if strict then noteMisfit k.line
              decodeFields merged fuel r done rest mergeNode
        | _ => decodeFields merged fuel r done rest mergeNode

/-- Reads a mapping, or each of a list of mappings, into a record. -/
def decodeMerge (given : List String) (fuel : Nat) (r : ρ) (done : List (String × Tree))
    (source : Node) : Decode (List (String × Tree)) := do
  match fuel with
  | 0 => throw ⟨0⟩
  | fuel + 1 =>
    match source with
    | .sequence _ _ [] => return done
    | .sequence line tag (n :: rest) =>
      match n.resolved with
      | .mapping _ _ pairs =>
        if ← repeatedKeys pairs then
          decodeMerge given fuel r done (.sequence line tag rest)
        else
          let added ← decodeFields (some given) fuel r done pairs none
          let given := given ++ pairs.map fun (k, _) => k.resolved.text
          decodeMerge given fuel r added (.sequence line tag rest)
      | _ => throw ⟨0⟩
    | _ =>
      match source.resolved with
      | .mapping _ _ pairs =>
        if ← repeatedKeys pairs then return done
        decodeFields (some given) fuel r done pairs none
      | _ => throw ⟨0⟩

/-- The entries of a dictionary; null keys and entries that do not fit are left out, and null
entries say nothing. -/
def decodeDict (fuel : Nat) (shape : Shape ρ) (done : List (String × Tree))
    (pairs : List (Node × Node)) : Decode (List (String × Tree)) := do
  match fuel with
  | 0 => throw ⟨0⟩
  | fuel + 1 =>
    match pairs with
    | [] => return done
    | (k, v) :: rest =>
      if isMergeKey k then
        let inner ← decodeDict fuel shape done rest
        match v.resolved with
        | .mapping _ _ more =>
          decodeDict fuel shape inner
            (more.filter fun (k, _) => (inner.lookup k.resolved.text).isNone)
        | _ => throw ⟨0⟩
      else
        let name ← decode none fuel .text (.text "") k
        match name with
        | some (.text name) =>
          let t ← decode none fuel shape (.fresh shape) v
          let done := match t with
            | some t => Tree.setField done name t
            | none =>
              if v.resolved.isNull && (done.lookup name).isNone then
                done ++ [(name, .fresh shape)]
              else done
          decodeDict fuel shape done rest
        | _ => decodeDict fuel shape done rest

end

/-- The size of a node with names spelled out bounds the work of reading it. -/
def Node.weight : Node → Nat
  | .sequence _ _ entries => weightOfEntries entries + 1
  | .mapping _ _ pairs => weightOfPairs pairs + 1
  | .alias _ _ target => target.weight + 1
  | _ => 1
where
  weightOfEntries : List Node → Nat
    | [] => 0
    | n :: rest => n.weight + weightOfEntries rest
  weightOfPairs : List (Node × Node) → Nat
    | [] => 0
    | (k, v) :: rest => k.weight + v.weight + weightOfPairs rest

/-- Reads the first document of a text into a record. No document, or one that is null, gives
nothing. -/
def readRecord (r : ρ) (bytes : List UInt8) : Except Fault (Option Tree) := do
  match ← parse bytes with
  | none => return none
  | some root =>
    let run := decode fields strict none (4 * root.weight + 16) (.record r) (.record []) root
    let (t, s) ← run.run {}
    match s.misfit with
    | some line => throw ⟨line⟩
    | none => return some (t.getD (.record []))

end Schemata.Yaml
