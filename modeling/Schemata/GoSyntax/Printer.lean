import Schemata.GoSyntax.File
import Schemata.Text.Columns

/-!
Go source in its standard layout: one tab for each level, the parts of neighbouring fields and
constants in columns, imports sorted in groups. Blank lines are kept, but never two in a row.
-/

namespace Schemata.GoSyntax

open Text

/-! ### Lines -/

inductive Piece where
  | text (s : String)
  | cell
  | newline
  /-- The end of a line and of the columns above it. -/
  | section
  | indent
  | unindent
deriving DecidableEq, Repr

abbrev Layout := List Piece

def lit (s : String) : Layout := [.text s]

def spaced (sep : Layout) : List Layout → Layout
  | [] => []
  | [x] => x
  | x :: xs => x ++ sep ++ spaced sep xs

def Piece.isBreak : Piece → Bool
  | .newline | .section => true
  | _ => false

/-- How many bytes a layout takes on one line, if it fits on one. -/
def lineSize? (l : Layout) : Option Nat :=
  if l.any (·.isBreak) then none
  else some ((l.map fun | .text s => s.utf8ByteSize | .cell => 1 | _ => 0).foldr (· + ·) 0)

/-- A line being laid out: the level it starts at and its cells, the last one first. -/
structure Row where
  level : Nat := 0
  cells : List String := [""]

def Row.isEmpty (r : Row) : Bool := r.cells == [""]

def Row.add (level : Nat) (s : String) (r : Row) : Row :=
  match r.cells with
  | [] => { level, cells := [s] }
  | c :: cs => if r.isEmpty then { level, cells := [s] } else { r with cells := (c ++ s) :: cs }

def Row.lines (rows : List Row) : List String :=
  let texts := aligned (rows.map (·.cells.reverse))
  (rows.zip texts).map fun (r, s) =>
    let s := s.trimAsciiEnd.toString
    if s.isEmpty then "" else String.ofList (List.replicate r.level '\t') ++ s

/-- The lines of a layout. `done` are the rows since the columns last ended. -/
def linesFrom (level : Nat) (done : List Row) (row : Row) : Layout → List String
  | [] => Row.lines (done ++ [row])
  | .text s :: rest => linesFrom level done (row.add level s) rest
  | .cell :: rest => linesFrom level done { row with cells := "" :: row.cells } rest
  | .newline :: rest => linesFrom level (done ++ [row]) {} rest
  | .section :: rest => Row.lines (done ++ [row]) ++ linesFrom level [] {} rest
  | .indent :: rest => linesFrom (level + 1) done row rest
  | .unindent :: rest => linesFrom (level - 1) done row rest

def render (l : Layout) : String :=
  String.intercalate "\n" (linesFrom 0 [] {} l) ++ "\n"

/-! ### Fields -/

structure FieldForm where
  names : List String
  type : Layout
  tag : Option String
  start : Nat
  stop : Nat

namespace FieldForm

def nameList (f : FieldForm) : Layout := lit (String.intercalate ", " f.names)

def plain (f : FieldForm) : Layout :=
  if f.names.isEmpty then f.type else f.nameList ++ lit " " ++ f.type

/-- A method of an interface: its type without the keyword. -/
def method (f : FieldForm) : Layout :=
  if f.names.isEmpty then f.type else f.nameList ++ f.type.drop 1

/-- Whether fields can be written on one line: a single group without a tag, and not too long. -/
def fitLine (fields : List FieldForm) : Bool :=
  match fields with
  | [f] =>
    f.tag.isNone &&
      (lineSize? f.type).any fun n => n + (if f.names.isEmpty then 0 else 1) ≤ 30
  | _ => false

/-- A field in columns, or with blanks when it stands alone. -/
def columns (alone : Bool) (f : FieldForm) : Layout :=
  let sep : Layout := if alone then lit " " else [.cell]
  let head := if f.names.isEmpty then f.type else f.nameList ++ sep ++ f.type
  match f.tag with
  | none => head
  | some tag =>
    head ++ (if f.names.isEmpty || alone then [] else [.cell]) ++ sep ++ lit tag

end FieldForm

/-- The breaks between two parts: as many as in the source, at least `least` and at most two. -/
def breaks (least start stop : Nat) (isSection : Bool) : Layout :=
  let n := max (min (start - stop) 2) least
  if isSection then .section :: List.replicate (n - 1) .newline else List.replicate n .newline

/-- Parts on lines of their own. Behind a part of several lines the columns start anew. -/
def stacked : List (Layout × Nat × Nat) → Layout
  | [] => []
  | [(x, _, _)] => x
  | (x, _, stop) :: (y, start, stop') :: rest =>
    x ++ breaks 1 start stop (x.any (·.isBreak)) ++ stacked ((y, start, stop') :: rest)

def braced (isOneLine isStruct : Bool) (fields : List FieldForm) : Layout :=
  if isOneLine && fields.isEmpty then lit "{}"
  else if isOneLine && FieldForm.fitLine fields then
    lit r"{ " ++ fields.flatMap (fun f => if isStruct then f.plain else f.method) ++ lit r" }"
  else
    let part (f : FieldForm) : Layout :=
      if isStruct then f.columns (fields.length == 1) else f.method
    lit r" {" ++ [.indent] ++ (if fields.isEmpty then [] else [.section]) ++
      stacked (fields.map fun f => (part f, f.start, f.stop)) ++ [.unindent, .section] ++ lit r"}"

def parameterLayout (opening closing : String) (fields : List FieldForm) : Layout :=
  lit opening ++ spaced (lit ", ") (fields.map (·.plain)) ++ lit closing

def resultLayout (fields : List FieldForm) : Layout :=
  match fields with
  | [] => []
  | [f] => if f.names.isEmpty then lit " " ++ f.type else lit " " ++ parameterLayout "(" ")" [f]
  | fields => lit " " ++ parameterLayout "(" ")" fields

/-! ### Expressions -/

def normalNumber (text : String) : String :=
  match text.toList with
  | '0' :: 'X' :: rest => String.ofList ('0' :: 'x' :: rest)
  | '0' :: 'O' :: rest => String.ofList ('0' :: 'o' :: rest)
  | '0' :: 'B' :: rest => String.ofList ('0' :: 'b' :: rest)
  | cs =>
    if cs.take 2 == ['0', 'x'] then text
    else String.ofList (cs.map fun c => if c = 'E' then 'e' else c)

def literalText (l : Literal) : String :=
  match l.kind with
  | .integer | .floating => normalNumber l.text
  | _ => l.text

/-- Which precedences an expression without parentheses mixes, and the least one whose operators
must keep their blanks so as not to run together. -/
structure Mix where
  has4 : Bool := false
  has5 : Bool := false
  problem : Nat := 0

def Mix.join (a b : Mix) : Mix := ⟨a.has4 || b.has4, a.has5 || b.has5, max a.problem b.problem⟩

/-- What an operator and the operand right of it could be read as. -/
def clash (operator : String) : Expr → Nat
  | .star .. => if operator == "/" then 5 else 0
  | .unary _ op _ =>
    match operator ++ op with
    | "/*" | "&&" | "&^" => 5
    | "++" | "--" => 4
    | _ => 0
  | _ => 0

def Expr.mix : Expr → Mix
  | .binary x op y =>
    let p := precedence op
    let own : Mix := ⟨p == 4, p == 5, clash op y⟩
    let left : Mix := match x with
      | .binary _ op' _ => if precedence op' < p then {} else x.mix
      | _ => {}
    let right : Mix := match y with
      | .binary _ op' _ => if precedence op' ≤ p then {} else y.mix
      | _ => {}
    own.join (left.join right)
  | _ => {}

/-- Operators that bind less tightly than this have blanks around them. -/
def cutoff (m : Mix) (depth : Nat) : Nat :=
  if m.problem > 0 then m.problem + 1
  else if m.has4 && m.has5 then (if depth ≤ 1 then 5 else 4)
  else if depth ≤ 1 then 6
  else 4

/-- How much deeper the left operand of an operator stands. -/
def leftDepth (operator : String) : Expr → Nat
  | .binary _ op _ => if precedence op == precedence operator then 0 else 1
  | _ => 1

mutual

/-- The layout of an expression at a depth; `bare` leaves out parentheses around it. -/
def Expr.layout (bare : Bool) (depth : Nat) : Expr → Layout
  | .bad _ => []
  | .identifier id => lit id.name
  | .literal l => lit (literalText l)
  | .paren _ (.paren place x) => Expr.layout bare depth (.paren place x)
  | .paren _ x =>
    if bare then x.layout true depth
    else lit "(" ++ x.layout false (depth - 1) ++ lit ")"
  | .selector x name => x.layout false depth ++ lit ("." ++ name.name)
  | .index x args =>
    x.layout false 1 ++ lit "[" ++ spaced (lit ", ") (layouts (depth + 1) args) ++ lit "]"
  | .slice x _ => x.layout false depth
  | .assertion x type =>
    x.layout false depth ++ lit ".(" ++ optionalLayout type ++ lit ")"
  | .call f args spread =>
    let depth := if args.length > 1 then depth + 1 else depth
    f.layout false depth ++ lit "(" ++ spaced (lit ", ") (layouts depth args) ++
      lit (if spread then "...)" else ")")
  | .star _ x => lit "*" ++ x.layout false 1
  | .unary _ op x => lit op ++ x.layout false depth
  | .binary x op y =>
    let blank := if precedence op < cutoff (Expr.mix (.binary x op y)) depth then " " else ""
    x.layout false (depth + leftDepth op x) ++ lit (blank ++ op ++ blank) ++
      y.layout false (depth + 1)
  | .pair k v => k.layout false depth ++ lit ": " ++ v.layout false depth
  | .composite type _ elements =>
    optionalLayout type ++ lit r"{" ++ spaced (lit ", ") (layouts 1 elements) ++ lit r"}"
  | .function .. => []
  | .ellipsis _ x => lit "..." ++ optionalLayout x
  | .array _ length elem =>
    lit "[" ++ optionalLayout length ++ lit "]" ++ elem.layout false 1
  | .struct _ isOneLine fields => lit "struct" ++ braced isOneLine true (forms false fields)
  | .functionType _ s => lit "func" ++ s.layout
  | .interface _ isOneLine elements =>
    lit "interface" ++ braced isOneLine false (forms false elements)
  | .map _ k v => lit "map[" ++ k.layout false 1 ++ lit "]" ++ v.layout false 1
  | .channel _ _ direction x =>
    let keyword := match direction with
      | .both => "chan "
      | .send => "chan<- "
      | .receive => "<-chan "
    lit keyword ++ x.layout false 1

def optionalLayout : Option Expr → Layout
  | none => []
  | some x => x.layout false 1

def layouts (depth : Nat) : List Expr → List Layout
  | [] => []
  | x :: xs => x.layout false depth :: layouts depth xs

/-- Fields or parameters ready to be written; `bare` leaves out parentheses around their
types. -/
def forms (bare : Bool) : List FieldGroup → List FieldForm
  | [] => []
  | .mk names type tag start stop :: rest =>
    { names := names.map (·.name), type := type.layout bare 1, tag := tag.map (·.text), start,
      stop } :: forms bare rest

def Signature.layout : Signature → Layout
  | .mk params none => parameterLayout "(" ")" (forms true params)
  | .mk params (some results) =>
    parameterLayout "(" ")" (forms true params) ++ resultLayout (forms true results)

end

def exprsLayout (xs : List Expr) : Layout := spaced (lit ", ") (layouts 1 xs)

/-! ### Statements -/

mutual

/-- The layout of a statement; of other forms than these there is none. -/
def Stmt.layout? : Stmt → Option Layout
  | .expr x => some (x.layout false 1)
  | .result values =>
    some (lit (if values.isEmpty then "return" else "return ") ++ exprsLayout values)
  | .switch tag clauses => do
    let head := match tag with
      | some x => lit "switch " ++ x.layout false 1 ++ lit r" {"
      | none => lit r"switch {"
    let body ← clauseLayouts? clauses
    return head ++ body ++ [.section] ++ lit r"}"
  | _ => none

def stmtLayouts? : List Stmt → Option Layout
  | [] => some []
  | s :: rest => do return [.section] ++ (← s.layout?) ++ (← stmtLayouts? rest)

def clauseLayouts? : List Clause → Option Layout
  | [] => some []
  | .mk values body :: rest => do
    let head := match values with
      | some xs => lit "case " ++ exprsLayout xs ++ lit ":"
      | none => lit "default:"
    let body ← stmtLayouts? body
    return [.section] ++ head ++ [.indent] ++ body ++ [.unindent] ++ (← clauseLayouts? rest)

end

/-! ### Declarations -/

def ValueSpec.layout (alone keepType : Bool) (s : ValueSpec) : Layout :=
  let sep : Layout := if alone then lit " " else [.cell]
  lit (String.intercalate ", " (s.names.map (·.name))) ++
    (match s.type with
      | some t => sep ++ t.layout false 1
      | none => if keepType then sep else []) ++
    (if s.values.isEmpty then [] else sep ++ lit "= " ++ exprsLayout s.values)

def TypeSpec.layout (alone : Bool) (s : TypeSpec) : Layout :=
  lit s.name.name ++
    ((s.typeParams.map fun ps => parameterLayout "[" "]" (forms true ps)).getD []) ++
    (if alone then lit " " else [.cell]) ++ lit (if s.isAlias then "= " else "") ++
    s.type.layout false 1

/-- Imports of the standard library come first, then those of other sites. -/
def importGroup (path : String) : Nat :=
  let site := path.toList.takeWhile (· ≠ '/')
  if site.contains '.' then 1 else 0

def ImportSpec.target (s : ImportSpec) : String :=
  String.ofList ((unquote? s.path.toList).getD s.path.toList)

def ImportSpec.layout (s : ImportSpec) : Layout :=
  lit (((s.name.map fun n => n.name ++ " ").getD "") ++ s.path)

/-- The imports in order, a blank line between groups. -/
def importLayout (specs : List ImportSpec) : Layout :=
  let byGroup (g : Nat) := (specs.filter (importGroup ·.target == g)).mergeSort
    fun a b => a.target ≤ b.target
  let groups := ([0, 1].map byGroup).filter (!·.isEmpty)
  spaced [.newline, .newline] (groups.map fun g => spaced [.newline] (g.map (·.layout)))

/-- A declaration behind its keyword, in parentheses when it is a group. -/
def groupLayout (keyword : String) (isGroup : Bool) (body : Layout) : Layout :=
  if !isGroup then lit (keyword ++ " ") ++ body
  else if body.isEmpty then lit (keyword ++ " ()")
  else lit (keyword ++ " (") ++ [.indent, .section] ++ body ++ [.unindent, .section] ++ lit ")"

def valuesLayout (specs : List ValueSpec) : Layout :=
  let keepType := specs.any (·.type.isSome)
  stacked (specs.map fun s => (s.layout (specs.length == 1) keepType, s.start, s.stop))

def FunctionDecl.layout? (d : FunctionDecl) : Option Layout := do
  let head := lit "func " ++
    ((d.receiver.map fun r => parameterLayout "(" ")" (forms true r) ++ lit " ").getD []) ++
    lit d.name.name ++
    ((d.typeParams.map fun ps => parameterLayout "[" "]" (forms true ps)).getD []) ++
    d.signature.layout
  match d.body with
  | none => return head
  | some [] =>
    if d.isOneLine && (lineSize? head).any (· ≤ 100) then
      return head ++ [.cell] ++ lit "{}"
    else return head ++ lit r" {" ++ [.section] ++ lit r"}"
  | some body =>
    return head ++ lit r" {" ++ [.indent] ++ (← stmtLayouts? body) ++ [.unindent, .section] ++
      lit r"}"

def DeclForm.keyword : DeclForm → String
  | .imports _ => "import"
  | .types _ => "type"
  | .constants _ => "const"
  | .variables _ => "var"
  | .function _ => "func"
  | .bad => ""

def Decl.layout? (d : Decl) : Option Layout :=
  let grouped := groupLayout d.form.keyword d.isGroup
  match d.form with
  | .imports specs => some (grouped (importLayout specs))
  | .types specs =>
    some (grouped (stacked (specs.map fun s => (s.layout (specs.length == 1), s.start, s.stop))))
  | .constants specs | .variables specs => some (grouped (valuesLayout specs))
  | .function f => f.layout?
  | .bad => none

/-- Declarations, a blank line at least between those of different sorts. -/
def declLayouts? (last : String) (stop : Nat) : List Decl → Option Layout
  | [] => some []
  | d :: rest => do
    let keyword := d.form.keyword
    let own ← d.layout?
    let rest ← declLayouts? keyword d.stop rest
    return breaks (if keyword == last then 1 else 2) d.start stop false ++ own ++ rest

/-- The comments before a line, with the blank lines behind them. -/
def commentLayout (line : Nat) : List Comment → Layout
  | [] => []
  | [c] => lit c.text ++ breaks 1 line c.lastLine false
  | c :: d :: rest =>
    lit c.text ++ breaks 1 d.place.line c.lastLine false ++ commentLayout line (d :: rest)

def File.layout? (comments : List Comment) (f : File) : Option Layout := do
  let line := f.package.place.line
  let decls ← declLayouts? "" line f.decls
  return commentLayout line comments ++ lit ("package " ++ f.package.name) ++ decls

/-- Source in its standard layout. Source that is not Go has none; source with parts that are
never laid out here stays as it is. -/
def format? (source : String) : Option String :=
  let bytes := source.toUTF8.toList
  match parse bytes with
  | .error _ => none
  | .ok f =>
    let comments := ((lex bytes).head?.map (·.comments)).getD []
    match f.layout? comments with
    | some l => some (render l)
    | none => some source

end Schemata.GoSyntax
