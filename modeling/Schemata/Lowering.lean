import Schemata.Diagnostic
import Schemata.Schema.Show
import Schemata.Template

/-!
Lowering: the text of a type in a target notation, by a table that has a name template and a
default-value template for each kind. Lowering never fails. A type the table cannot express
becomes the fallback text, and the degradation is reported.
-/

namespace Schemata

structure Row where
  name : String := ""
  default : String := ""
deriving DecidableEq, Repr

abbrev Table := List (Kind × Row)

structure Lowerer where
  table : Table
  /-- The text for what has no row; empty stands for the name of the bytes row. -/
  fallback : String := ""
  /-- Renders the names of declarations. -/
  qualify : String → String := id
  /-- Takes precedence over the table. -/
  override? : TypeExpr → Option String := fun _ => none
  /-- Whether scalars without a kind keep their source text. -/
  passthrough : Bool := false
  /-- What stands between the alternatives of a variant, in notations with union types. It takes
  precedence over the table. -/
  union? : Option String := none

/-- A type that could only be written as the fallback text. -/
structure Degradation where
  kind : Kind
  what : String
  text : String
deriving DecidableEq, Repr

def Degradation.message (d : Degradation) : String :=
  "no " ++ d.kind.name ++ " mapping for " ++ d.what ++ ", using " ++ d.text

/-- A lowered text with the degradations met on the way, in order. -/
structure Lowered where
  text : String
  degradations : List Degradation := []
deriving DecidableEq, Repr

/-- The kind whose row a container takes: an array without a length is written as a list. -/
def containerKind (k : Kind) (len : Int64) : Kind :=
  if k = .array ∧ len ≤ 0 then .list else k

/-- The length of an array, as a further argument of its template. -/
def lengthArgument (k : Kind) (len : Int64) : List String :=
  if k = .array ∧ len > 0 then [showInt len] else []

namespace Lowerer

variable (l : Lowerer)

def row? (k : Kind) : Option Row := l.table.lookup k

/-- The name template of a kind; a row without one does not name a type. -/
def nameTemplate? (k : Kind) : Option String :=
  (l.row? k).bind fun r => if r.name = "" then none else some r.name

def defaultTemplate (k : Kind) : String :=
  ((l.row? k).map (·.default)).getD ""

def fallbackText : String :=
  if l.fallback ≠ "" then l.fallback else (l.nameTemplate? .bytes).getD "unknown"

def degrade (kind : Kind) (what : String) : Lowered :=
  ⟨l.fallbackText, [⟨kind, what, l.fallbackText⟩]⟩

def fill (template : String) (args : List String) : String :=
  Template.substitute template args l.fallbackText

/-- A scalar takes the name of its row, unless that asks for arguments. -/
def scalar (kind : Kind) (spelling : String) : Lowered :=
  if kind = .unknown ∧ spelling ≠ "" ∧ l.passthrough then ⟨spelling, []⟩
  else match l.nameTemplate? kind with
    | some name =>
      if Template.isClosed name then ⟨name, []⟩
      else l.degrade kind (TypeExpr.primitive kind spelling).text
    | none => l.degrade kind (TypeExpr.primitive kind spelling).text

mutual

def typeName (l : Lowerer) : TypeExpr → Lowered
  | .missing => l.degrade .unknown "missing type"
  | .primitive k s =>
    match l.override? (.primitive k s) with
    | some text => ⟨text, []⟩
    | none => l.scalar k s
  | .reference name k =>
    match l.override? (.reference name k) with
    | some text => ⟨text, []⟩
    | none => ⟨l.qualify name, []⟩
  | .indirection k elem =>
    match l.override? (.indirection k elem) with
    | some text => ⟨text, []⟩
    | none =>
      let child := typeName l elem
      match (l.nameTemplate? k).or (l.nameTemplate? .optional) with
      | some template => ⟨l.fill template [child.text], child.degradations⟩
      | none => child
  | .generic k args len =>
    match l.override? (.generic k args len) with
    | some text => ⟨text, []⟩
    | none =>
      match if k = .variant then l.union? else none with
      | some separator =>
        let (texts, degradations) := typeNames l args
        ⟨String.intercalate separator texts, degradations⟩
      | none =>
        match l.nameTemplate? (containerKind k len) with
        | none => l.degrade (containerKind k len) (TypeExpr.generic k args len).text
        | some template =>
          let (texts, degradations) := typeNames l args
          ⟨l.fill template (texts ++ lengthArgument k len), degradations⟩
  | .inline body =>
    match l.override? (.inline body) with
    | some text => ⟨text, []⟩
    | none =>
      if body.isNamed then ⟨l.qualify body.name, []⟩
      else l.degrade .structRef "anonymous inline struct"
  | .emptyInline =>
    match l.override? .emptyInline with
    | some text => ⟨text, []⟩
    | none => l.degrade .structRef "anonymous inline struct"

def typeNames (l : Lowerer) : List TypeExpr → List String × List Degradation
  | [] => ([], [])
  | t :: ts =>
    let head := typeName l t
    let (texts, degradations) := typeNames l ts
    (head.text :: texts, head.degradations ++ degradations)

end

/-- The default value of a type, empty when its row has none. -/
def defaultValue : TypeExpr → Lowered
  | .missing => ⟨"", []⟩
  | .primitive k _ => ⟨l.defaultTemplate k, []⟩
  | .reference name _ => ⟨l.fill (l.defaultTemplate .structRef) [l.qualify name], []⟩
  | .indirection k elem =>
    let child := l.typeName elem
    let row := (l.row? k).or (l.row? .optional)
    ⟨l.fill ((row.map (·.default)).getD "") [child.text], child.degradations⟩
  | .generic k args len =>
    let (texts, degradations) := l.typeNames args
    ⟨l.fill (l.defaultTemplate (containerKind k len)) (texts ++ lengthArgument k len),
      degradations⟩
  | .inline body =>
    let name := l.typeName (.inline body)
    ⟨l.fill (l.defaultTemplate .structRef) [name.text], name.degradations⟩
  | .emptyInline =>
    let name := l.typeName .emptyInline
    ⟨l.fill (l.defaultTemplate .structRef) [name.text], name.degradations⟩

end Lowerer

/-- What a lowerer has reported so far. Each degradation is reported once. -/
structure Reported where
  warned : List String := []
  diagnostics : Diagnostics := {}

/-- Reports the degradations that were not reported before. -/
def Reported.record (target : String) (r : Reported) (ds : List Degradation) : Reported :=
  ds.foldl (fun r d =>
    if r.warned.contains d.message then r
    else ⟨r.warned ++ [d.message], r.diagnostics.warn .unmappedKind d.message target ""⟩) r

end Schemata
