import Schemata.Hcl.Parser

/-!
Whole texts of the block language. A text is refused at its first fault: bytes and signs that are
no token come first, then faults of its structure. When the single setting of a block on one
line is faulty, what follows it is looked at before its own faults are reported.
-/

namespace Schemata.Hcl

open Text

/-- A setting behind its name. On a line of its own it ends with a line break. -/
def settingAfter (fuel : Nat) (name : Token) (ownLine : Bool) : Parse Setting := do
  discard read
  let (value, lost) ← attemptLost (expression fuel)
  if lost then recoverItem
  else if ownLine then
    let next ← peek
    if next.kind = .newline ∨ next.kind = .endOfFile then discard read
    else
      minorFault next.place
      recoverItem
  return { name := String.ofList name.text, place := name.place, value }

/-- The one setting of a block on one line; none when it cannot be read. -/
def singleSetting (fuel : Nat) : Parse (Option Setting) := do
  let name ← read
  if name.kind ≠ .identifier then
    fault name.place
    recoverItem
    return none
  if (← peek).kind = .equal then return some (← settingAfter fuel name false)
  fault name.place
  recoverItem
  return none

/-- The body of a block on one line, behind its opening brace. -/
def singleBody (fuel : Nat) (brace : Place) : Parse Body := do
  let before := (← get).faults
  modify fun c => { c with faults := [] }
  let found ← singleSetting fuel
  let inner := (← get).faults
  modify fun c => { c with faults := before }
  let next ← peek
  match next.kind with
  | .closeBrace => discard read
  | .comma | .newline =>
    fault next.place
    recover .closeBrace
  | kind =>
    minorFault (if kind = .endOfFile then brace else next.place)
    recover .closeBrace
  modify fun c => { c with faults := inner ++ c.faults }
  return match found with
    | some a => { place := a.place, settings := [a] }
    | none => { place := brace }

/-- The labels of a block up to its opening brace; none when there is no such brace. -/
def labels (fuel : Nat) : Parse (Option (List (String × Place) × Place)) := do
  match fuel with
  | 0 => return none
  | fuel + 1 =>
    let t ← peek
    match t.kind with
    | .openBrace =>
      discard read
      return some ([], t.place)
    | .openQuote =>
      discard read
      let text ← quotedParts fuel
      return (← labels fuel).map fun (more, brace) =>
        ((String.ofList text, t.place) :: more, brace)
    | .identifier =>
      discard read
      return (← labels fuel).map fun (more, brace) =>
        ((String.ofList t.text, t.place) :: more, brace)
    | kind =>
      if kind = .equal ∨ kind = .newline then fault t.place else minorFault t.place
      recoverItem
      return none

mutual

/-- A body up to its closing token; `done` is what was read of it. -/
def bodyItems (fuel : Nat) (close : TokenKind) (done : Body) : Parse Body := do
  match fuel with
  | 0 => return done
  | fuel + 1 =>
    let next ← peek
    if next.kind = close then
      discard read
      return done
    match next.kind with
    | .newline =>
      discard read
      bodyItems fuel close done
    | .identifier =>
      discard read
      match (← peek).kind with
      | .equal =>
        let a ← settingAfter fuel next true
        if done.settings.any (·.name == a.name) then
          fault a.place
          bodyItems fuel close done
        else bodyItems fuel close { done with settings := done.settings ++ [a] }
      | .openQuote | .openBrace | .identifier =>
        match ← block fuel next with
        | some b => bodyItems fuel close { done with blocks := done.blocks ++ [b] }
        | none => bodyItems fuel close done
      | _ =>
        fault next.place
        recoverItem
        bodyItems fuel close done
    | kind =>
      discard read
      minorFault (if kind = .endOfFile then done.place else next.place)
      recover close
      return done

def block (fuel : Nat) (kind : Token) : Parse (Option Block) := do
  match fuel with
  | 0 => return none
  | fuel + 1 =>
    match ← labels fuel with
    | none => return none
    | some (names, brace) =>
      let next ← peek
      let body ← match next.kind with
        | .newline | .endOfFile | .closeBrace =>
          bodyItems fuel .closeBrace { place := brace }
        | _ => singleBody fuel brace
      let after ← peek
      if after.kind = .newline ∨ after.kind = .endOfFile then discard read
      else
        minorFault after.place
        recoverItem
      return some ⟨String.ofList kind.text, kind.place, names, body⟩

end

def parseTokens (tokens : List Token) : Except Place Body :=
  let final := tokens.getLast?.getD { kind := .endOfFile, text := [], place := ⟨1, 1⟩ }
  let fuel := 16 * tokens.length + 64
  let (body, cursor) := (bodyItems fuel .endOfFile { place := ⟨1, 1⟩ }).run
    { rest := tokens, final }
  match cursor.faults.getLast? with
  | some place => .error place
  | none => .ok body

/-- The places of tokens that are none; `wrong` tells for each character whether it stands for
bytes that spell none. Comments may hold anything. -/
def invalidPlaces : List Token → List Bool → List Place
  | [], _ => []
  | t :: ts, wrong =>
    let inside := (wrong.drop t.spaces).take t.text.length
    let more := invalidPlaces ts (wrong.drop (t.spaces + t.text.length))
    if t.kind = .invalid then t.place :: more
    else if t.kind = .comment then more
    else match inside.findIdx? id with
      | some i => advance t.place (t.text.take i) :: more
      | none => more

/-- The characters of a source without a byte order mark, and which of them are wrong. -/
def sourceText (bytes : List UInt8) : List Char × List Bool :=
  let cs := match Utf8.decode bytes with
    | some c :: rest => if c.toNat = 0xFEFF then rest else some c :: rest
    | cs => cs
  (cs.map (·.getD Utf8.replacement), cs.map (·.isNone))

def parse (bytes : List UInt8) : Except Place Body :=
  let (cs, wrong) := sourceText bytes
  let tokens := lex cs
  match invalidPlaces tokens wrong with
  | place :: _ => .error place
  | [] => parseTokens tokens

/-- Reads a text that is one expression. Line breaks do not count in it. -/
def parseExpression (cs : List Char) : Except Place Expression :=
  let tokens := lex cs
  match invalidPlaces tokens [] with
  | place :: _ => .error place
  | [] =>
    let whole : Parse Expression := do
      let e ← expression (16 * tokens.length + 64)
      let next ← peek
      if next.kind ≠ .endOfFile then minorFault next.place
      return e
    let final := tokens.getLast?.getD { kind := .endOfFile, text := [], place := ⟨1, 1⟩ }
    let (e, cursor) := whole.run { rest := tokens, final, breaks := [false] }
    match cursor.faults.getLast? with
    | some place => .error place
    | none => .ok e

end Schemata.Hcl
