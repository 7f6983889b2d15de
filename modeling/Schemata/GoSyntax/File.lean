import Schemata.GoSyntax.Lexer
import Schemata.GoSyntax.Parser

/-!
Files of Go source: a package clause, imports, and other declarations.
-/

namespace Schemata.GoSyntax

open Text

def importSpec : Parse ImportSpec := do
  let t ← peek
  let name ←
    if t.kind = .identifier || t.is "." then do
      next
      pure (some ⟨t.place, t.text⟩)
    else pure none
  let p ← peek
  if p.kind = .string then next
  else
    fault p.place
    if p.isLiteral then next else resumeAt endsExpression
  let stop := (← get).lastStop.line
  expectEnd
  return { name, path := p.text, start := t.place.line, stop }

/-- A function or a method, without a body when it is written elsewhere. -/
def functionDecl (n : Nat) : Parse FunctionDecl := do
  let _ ← expect "func"
  let receiver ← if ← isAt "(" then pure (some (← parameters n)) else pure none
  let name ← identifier
  let typeParams ← typeParameters n
  let params ← parameters n
  if receiver.isSome then
    if let some (opening, _) := typeParams then fault opening
  let signature := Signature.mk params (← results n)
  let start := (← here).line
  let body ←
    if ← isAt r"{" then do
      let body ← block n
      expectEnd
      pure (some body)
    else if ← isAtKind .semicolon then do
      next
      if ← isAt r"{" then
        fault (← here)
        let body ← block n
        expectEnd
        pure (some body)
      else pure none
    else do
      expectEnd
      pure none
  return { receiver, name, typeParams := typeParams.map (·.2), signature, body,
           isOneLine := start == (← get).lastStop.line }

def decl (n : Nat) : Parse Decl := do
  let t ← peek
  let (form, isGroup) ←
    if t.is "import" then do
      let (specs, isGroup) ← group n "import" importSpec
      pure (DeclForm.imports specs, isGroup)
    else if t.is "const" then do
      let (specs, isGroup) ← group n "const" (valueSpec n true)
      pure (.constants specs, isGroup)
    else if t.is "var" then do
      let (specs, isGroup) ← group n "var" (valueSpec n false)
      pure (.variables specs, isGroup)
    else if t.is "type" then do
      let (specs, isGroup) ← group n "type" (typeSpec n)
      pure (.types specs, isGroup)
    else if t.is "func" then pure (.function (← functionDecl n), false)
    else do
      fault t.place
      resumeAt startsDeclaration
      pure (.bad, false)
  return { form, isGroup, start := t.place.line, stop := (← get).lastStop.line }

/-- The declarations of a file. Imports come before the others. -/
def decls (m : Nat) : Nat → Bool → Parse (List Decl)
  | 0, _ => return []
  | n + 1, importsAllowed => do
    let t ← peek
    if t.kind = .endOfFile then return []
    else
      let isImport := t.is "import"
      if isImport && !importsAllowed then fault t.place
      let d ← decl m
      return d :: (← decls m n isImport)

/-- A file. A text that does not start with a package clause is read no further. -/
def file (n : Nat) : Parse File := do
  let nothing : File := { package := ⟨{}, ""⟩, decls := [] }
  if !(← get).faults.isEmpty then return nothing
  let _ ← expect "package"
  let package ← identifier
  expectEnd
  if !(← get).faults.isEmpty then return nothing
  return { package, decls := ← decls n n true }

def firstPlace? : List Place → Option Place
  | [] => none
  | p :: ps =>
    match firstPlace? ps with
    | none => some p
    | some q => some (if q.isBefore p then q else p)

/-- Reads a file, or tells where its first fault is. -/
def parse (bytes : List UInt8) : Except Place File :=
  match lex bytes with
  | [] => .error {}
  | t :: ts =>
    let (result, c) := (file (16 * (ts.length + 4))).run
      { current := t, rest := ts, faults := t.faults.reverse }
    match firstPlace? c.faults with
    | some place => .error place
    | none => .ok result

def typeAndEnd (n : Nat) : Parse Expr := do
  let e ← type n
  expectEnd
  return e

/-- The type that is the whole of a text. -/
def parseType? (text : String) : Option Expr :=
  match lex text.toUTF8.toList with
  | [] => none
  | t :: ts =>
    let (e, c) := (typeAndEnd (16 * (ts.length + 4))).run
      { current := t, rest := ts, faults := t.faults.reverse }
    if c.faults.isEmpty && c.current.kind = .endOfFile then some e else none

end Schemata.GoSyntax
