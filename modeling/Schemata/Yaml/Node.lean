import Schemata.Yaml.Lexer
import Schemata.Yaml.Scalar

/-!
The nodes of a YAML document, built from its tokens. Only the first document of a text is read.
-/

namespace Schemata.Yaml

/-- A node with its line, counted from one, and its tag. -/
inductive Node where
  | scalar (line : Nat) (tag : String) (text : String)
  | sequence (line : Nat) (tag : String) (entries : List Node)
  | mapping (line : Nat) (tag : String) (pairs : List (Node × Node))
  /-- Another name of a node that stands earlier. -/
  | alias (line : Nat) (name : String) (target : Node)
  /-- A name used inside the node it names. -/
  | cycle (line : Nat) (name : String)

namespace Node

def line : Node → Nat
  | .scalar line _ _ | .sequence line _ _ | .mapping line _ _ | .alias line _ _
  | .cycle line _ => line

/-- The text by which keys are compared; collections have none. -/
def text : Node → String
  | .scalar _ _ text => text
  | .alias _ name _ | .cycle _ name => name
  | _ => ""

def sameKind : Node → Node → Bool
  | .scalar .., .scalar .. => true
  | .sequence .., .sequence .. => true
  | .mapping .., .mapping .. => true
  | .alias .., .alias .. => true
  | .alias .., .cycle .. => true
  | .cycle .., .alias .. => true
  | .cycle .., .cycle .. => true
  | _, _ => false

end Node

/-- A name given to a node; the node is missing while it is being read. -/
structure Anchor where
  name : String
  serial : Nat
  node : Option Node

/-- What is known while nodes are read. -/
structure Reading where
  /-- The latest first. -/
  anchors : List Anchor := []
  /-- The starts of tags that handles stand for. -/
  handles : List (String × String) := []

abbrev Reader := StateT Reading Lexer

def refuseOrder {α : Type} (began problem : Mark) : Reader α :=
  throw (Fault.ofStructure began problem)

structure Properties where
  anchor : Option String := none
  /-- The whole tag, empty when there is none. -/
  tag : String := ""
  start : Mark

/-- An empty scalar that stands for a node left out. -/
def omitted (mark : Mark) : Node := .scalar (mark.line + 1) "!!null" ""

/-- The tag of a node: the one written, or the default. The sign for no particular tag counts as
none. -/
def tagOr (written default : String) : String :=
  if written = "" ∨ written = "!" then default else shortTag written

def scalarNode (line : Nat) (tag text : String) (style : Style) : Node :=
  let default :=
    if style ≠ .plain then "!!str"
    else if text = "<<" then "!!merge"
    else (meaningOf true text).tag
  .scalar line (tagOr tag default) text

def fullTag (start mark : Mark) (handle suffix : String) : Reader String := do
  if handle.isEmpty then return suffix
  match (← get).handles.lookup handle with
  | some long => return long ++ suffix
  | none => refuseOrder start mark

def properties : Reader Properties := do
  let t ← peekToken
  match t.kind with
  | .anchor name =>
    takeToken
    let next ← peekToken
    match next.kind with
    | .tag handle suffix =>
      takeToken
      return ⟨some name, ← fullTag t.start next.start handle suffix, t.start⟩
    | _ => return ⟨some name, "", t.start⟩
  | .tag handle suffix =>
    takeToken
    let next ← peekToken
    match next.kind with
    | .anchor name =>
      takeToken
      discard peekToken
      return ⟨some name, ← fullTag t.start t.start handle suffix, t.start⟩
    | _ => return ⟨none, ← fullTag t.start t.start handle suffix, t.start⟩
  | _ => return ⟨none, "", t.start⟩

/-- Announces the name of a node about to be read; gives the number to complete it by. -/
def announce (name : Option String) : Reader (Option Nat) := do
  match name with
  | none => return none
  | some name =>
    let serial := (← get).anchors.length
    modify fun s => { s with anchors := ⟨name, serial, none⟩ :: s.anchors }
    return some serial

def complete (serial : Option Nat) (node : Node) : Reader Node := do
  match serial with
  | none => return node
  | some n =>
    let anchors := (← get).anchors.map fun a =>
      if a.serial = n then { a with node := some node } else a
    modify fun s => { s with anchors }
    return node

def aliasNode (t : Token) (name : String) : Reader Node := do
  match (← get).anchors.find? fun a => a.name = name with
  | some ⟨_, _, some node⟩ => return .alias (t.start.line + 1) name node
  | some ⟨_, _, none⟩ => return .cycle (t.start.line + 1) name
  | none => throw ⟨0⟩

mutual

/-- A node. Outside brackets it may be a block; right below a mapping it may be a sequence
without indentation. -/
def node (fuel : Nat) (block indentless : Bool) : Reader Node := do
  match fuel with
  | 0 => throw ⟨0⟩
  | fuel + 1 =>
    let t ← peekToken
    if let .alias name := t.kind then
      takeToken
      return ← aliasNode t name
    let p ← properties
    let t ← peekToken
    let line := p.start.line + 1
    let plainly := fun (read : Reader Node) => do
      let serial ← announce p.anchor
      complete serial (← read)
    match t.kind with
    | .scalar text style =>
      takeToken
      plainly (return scalarNode line p.tag text style)
    | .flowSequenceStart =>
      takeToken
      plainly do
        return .sequence line (tagOr p.tag "!!seq") (← flowEntries fuel t.start true [])
    | .flowMappingStart =>
      takeToken
      plainly do
        return .mapping line (tagOr p.tag "!!map") (← flowPairs fuel t.start true [])
    | kind =>
      if indentless && kind == .blockEntry then
        plainly do
          return .sequence line (tagOr p.tag "!!seq") (← indentlessEntries fuel [])
      else if block && kind == .blockSequenceStart then
        takeToken
        plainly do
          return .sequence line (tagOr p.tag "!!seq") (← blockEntries fuel t.start [])
      else if block && kind == .blockMappingStart then
        takeToken
        plainly do
          return .mapping line (tagOr p.tag "!!map") (← blockPairs fuel t.start [])
      else if p.anchor.isSome || p.tag ≠ "" then
        plainly (return scalarNode line p.tag "" .plain)
      else refuseOrder p.start t.start

/-- Entries with dashes up to the end of their block; the ones read come in reverse. -/
def blockEntries (fuel : Nat) (began : Mark) (done : List Node) : Reader (List Node) := do
  match fuel with
  | 0 => throw ⟨0⟩
  | fuel + 1 =>
    let t ← peekToken
    match t.kind with
    | .blockEntry =>
      takeToken
      let next ← peekToken
      let entry ← match next.kind with
        | .blockEntry | .blockEnd => pure (omitted t.stop)
        | _ => node fuel true false
      blockEntries fuel began (entry :: done)
    | .blockEnd =>
      takeToken
      return done.reverse
    | _ => refuseOrder began t.start

/-- Entries with dashes at the column of the mapping above them. -/
def indentlessEntries (fuel : Nat) (done : List Node) : Reader (List Node) := do
  match fuel with
  | 0 => throw ⟨0⟩
  | fuel + 1 =>
    let t ← peekToken
    match t.kind with
    | .blockEntry =>
      takeToken
      let next ← peekToken
      let entry ← match next.kind with
        | .blockEntry | .blockEnd | .key | .value => pure (omitted t.stop)
        | _ => node fuel true false
      indentlessEntries fuel (entry :: done)
    | _ => return done.reverse

def blockPairs (fuel : Nat) (began : Mark) (done : List (Node × Node)) :
    Reader (List (Node × Node)) := do
  match fuel with
  | 0 => throw ⟨0⟩
  | fuel + 1 =>
    let t ← peekToken
    match t.kind with
    | .key =>
      takeToken
      let next ← peekToken
      let k ← match next.kind with
        | .key | .value | .blockEnd => pure (omitted t.stop)
        | _ => node fuel true true
      let v ← blockValue fuel
      blockPairs fuel began ((k, v) :: done)
    | .blockEnd =>
      takeToken
      return done.reverse
    | _ => refuseOrder began t.start

def blockValue (fuel : Nat) : Reader Node := do
  match fuel with
  | 0 => throw ⟨0⟩
  | fuel + 1 =>
    let t ← peekToken
    match t.kind with
    | .value =>
      takeToken
      let next ← peekToken
      match next.kind with
      | .key | .value | .blockEnd => return omitted t.stop
      | _ => node fuel true true
    | _ => return omitted t.start

def flowEntries (fuel : Nat) (began : Mark) (first : Bool) (done : List Node) :
    Reader (List Node) := do
  match fuel with
  | 0 => throw ⟨0⟩
  | fuel + 1 =>
    let t ← peekToken
    if t.kind == .flowSequenceEnd then
      takeToken
      return done.reverse
    if !first then
      if t.kind == .flowEntry then takeToken else refuseOrder began t.start
    let t ← peekToken
    match t.kind with
    | .flowSequenceEnd =>
      takeToken
      return done.reverse
    | .key =>
      takeToken
      let pair ← flowPair fuel
      let line := t.start.line + 1
      flowEntries fuel began false (.mapping line "!!map" [pair] :: done)
    | _ =>
      let entry ← node fuel false false
      flowEntries fuel began false (entry :: done)

/-- A single pair that stands as an entry between brackets. -/
def flowPair (fuel : Nat) : Reader (Node × Node) := do
  match fuel with
  | 0 => throw ⟨0⟩
  | fuel + 1 =>
    let t ← peekToken
    let k ← match t.kind with
      | .value | .flowEntry | .flowSequenceEnd => do
        takeToken
        pure (omitted t.stop)
      | _ => node fuel false false
    let t ← peekToken
    match t.kind with
    | .value =>
      takeToken
      let next ← peekToken
      match next.kind with
      | .flowEntry | .flowSequenceEnd => return (k, omitted next.start)
      | _ => return (k, ← node fuel false false)
    | _ => return (k, omitted t.start)

def flowPairs (fuel : Nat) (began : Mark) (first : Bool) (done : List (Node × Node)) :
    Reader (List (Node × Node)) := do
  match fuel with
  | 0 => throw ⟨0⟩
  | fuel + 1 =>
    let t ← peekToken
    if t.kind == .flowMappingEnd then
      takeToken
      return done.reverse
    if !first then
      if t.kind == .flowEntry then takeToken else refuseOrder began t.start
    let t ← peekToken
    match t.kind with
    | .flowMappingEnd =>
      takeToken
      return done.reverse
    | .key =>
      takeToken
      let next ← peekToken
      let k ← match next.kind with
        | .value | .flowEntry | .flowMappingEnd => pure (omitted next.start)
        | _ => node fuel false false
      let t ← peekToken
      let v ← match t.kind with
        | .value => do
          takeToken
          let next ← peekToken
          match next.kind with
          | .flowEntry | .flowMappingEnd => pure (omitted next.start)
          | _ => node fuel false false
        | _ => pure (omitted t.start)
      flowPairs fuel began false ((k, v) :: done)
    | _ =>
      let k ← node fuel false false
      let next ← peekToken
      flowPairs fuel began false ((k, omitted next.start) :: done)

end

/-- Reads directives; `versioned` tells that a version was given before. -/
def directives (fuel : Nat) (versioned : Bool) : Reader Unit := do
  match fuel with
  | 0 => return
  | fuel + 1 =>
    let t ← peekToken
    match t.kind with
    | .versionDirective major minor =>
      if versioned || major ≠ 1 || minor ≠ 1 then refuseOrder {} t.start
      takeToken
      directives fuel true
    | .tagDirective handle start =>
      if ((← get).handles.lookup handle).isSome then refuseOrder {} t.start
      modify fun s => { s with handles := s.handles ++ [(handle, start)] }
      takeToken
      directives fuel versioned
    | _ => return

/-- The handles that need no directive. -/
def defaultHandles : List (String × String) := [("!", "!"), ("!!", "tag:yaml.org,2002:")]

/-- The root node of the first document, none when there is no document. -/
def document (fuel : Nat) : Reader (Option Node) := do
  discard peekToken
  takeToken
  let t ← peekToken
  let addDefaults : Reader Unit :=
    modify fun s => { s with handles := s.handles ++ defaultHandles }
  let root ← match t.kind with
    | .streamEnd => return none
    | .versionDirective .. | .tagDirective .. | .documentStart => do
      directives fuel false
      addDefaults
      let start ← peekToken
      if start.kind ≠ .documentStart then refuseOrder {} start.start
      takeToken
      let t ← peekToken
      match t.kind with
      | .versionDirective .. | .tagDirective .. | .documentStart | .documentEnd
      | .streamEnd => pure (omitted t.start)
      | _ => node fuel true false
    | _ => do
      addDefaults
      node fuel true false
  discard peekToken
  return some root

def parse (bytes : List UInt8) : Except Fault (Option Node) := do
  let start := Lexing.ofBytes bytes
  let ((root, _), _) ← ((document (16 * (start.rest.length + 8))).run {}).run start
  return root

end Schemata.Yaml
