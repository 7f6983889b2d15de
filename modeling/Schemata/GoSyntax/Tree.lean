import Schemata.GoSyntax.Token

/-!
Go source as a tree. Only what declares something is kept in full; of a statement that declares
nothing the tree keeps its form and the expressions that tell it apart.
-/

namespace Schemata.GoSyntax

open Text

structure Identifier where
  place : Place
  name : String
deriving DecidableEq, Repr, Inhabited

structure Literal where
  place : Place
  kind : TokenKind
  text : String
deriving DecidableEq, Repr

inductive Direction where
  | both
  | send
  | receive
deriving DecidableEq, Repr

mutual

inductive Expr where
  | bad (place : Place)
  | identifier (id : Identifier)
  | literal (l : Literal)
  | paren (place : Place) (inner : Expr)
  | selector (of : Expr) (name : Identifier)
  | index (of : Expr) (args : List Expr)
  | slice (of : Expr) (bounds : List (Option Expr))
  /-- Without a type it asks for the type itself. -/
  | assertion (of : Expr) (type : Option Expr)
  | call (function : Expr) (args : List Expr) (spread : Bool)
  | star (place : Place) (inner : Expr)
  | unary (place : Place) (operator : String) (inner : Expr)
  | binary (left : Expr) (operator : String) (right : Expr)
  | pair (key value : Expr)
  | composite (type : Option Expr) (place : Place) (elements : List Expr)
  | function (place : Place) (signature : Signature) (body : List Stmt)
  /-- Any number of values of a type. -/
  | ellipsis (place : Place) (elem : Option Expr)
  | array (place : Place) (length : Option Expr) (elem : Expr)
  | struct (place : Place) (isOneLine : Bool) (fields : List FieldGroup)
  | functionType (place : Place) (signature : Signature)
  | interface (place : Place) (isOneLine : Bool) (elements : List FieldGroup)
  | map (place : Place) (key value : Expr)
  | channel (place arrow : Place) (direction : Direction) (value : Expr)

/-- Names that share a type: fields, parameters, or methods of an interface. The numbers are the
lines the group starts and ends on. -/
inductive FieldGroup where
  | mk (names : List Identifier) (type : Expr) (tag : Option Literal) (start stop : Nat)

inductive Signature where
  | mk (params : List FieldGroup) (results : Option (List FieldGroup))

inductive Stmt where
  | bad (place : Place)
  | empty
  | expr (x : Expr)
  | assign (left : List Expr) (place : Place) (operator : String) (right : List Expr)
  | labeled
  | result (values : List Expr)
  | switch (tag : Option Expr) (clauses : List Clause)
  /-- A simple statement of another form, known by where it starts. -/
  | simple (place : Place)
  | other

/-- A case of a switch; the default one has no values. -/
inductive Clause where
  | mk (values : Option (List Expr)) (body : List Stmt)

end

instance : Inhabited Expr := ⟨.bad {}⟩

namespace FieldGroup

def names : FieldGroup → List Identifier | .mk n _ _ _ _ => n
def type : FieldGroup → Expr | .mk _ t _ _ _ => t
def tag : FieldGroup → Option Literal | .mk _ _ t _ _ => t

def size (f : FieldGroup) : Nat := max f.names.length 1

end FieldGroup

namespace Signature

def params : Signature → List FieldGroup | .mk p _ => p
def results : Signature → List FieldGroup | .mk _ r => r.getD []

end Signature

def fieldCount (fields : List FieldGroup) : Nat := (fields.map (·.size)).foldr (· + ·) 0

def Expr.place : Expr → Place
  | .bad p | .paren p _ | .star p _ | .unary p _ _ | .ellipsis p _ | .array p _ _ => p
  | .struct p _ _ | .functionType p _ | .interface p _ _ | .map p _ _ => p
  | .channel p _ _ _ | .function p _ _ => p
  | .identifier id => id.place
  | .literal l => l.place
  | .selector x _ | .index x _ | .slice x _ | .assertion x _ | .call x _ _ => x.place
  | .binary x _ _ | .pair x _ => x.place
  | .composite (some t) _ _ => t.place
  | .composite none p _ => p

def Stmt.place : Stmt → Place
  | .expr x => x.place
  | .assign (x :: _) _ _ _ => x.place
  | .assign [] p _ _ => p
  | .bad p | .simple p => p
  | _ => {}

def Expr.unparen : Expr → Expr
  | .paren _ x => x.unparen
  | x => x

/-! ### Declarations -/

/-- A declared type. Lines are those it starts and ends on. -/
structure TypeSpec where
  name : Identifier
  typeParams : Option (List FieldGroup) := none
  isAlias : Bool := false
  type : Expr
  start : Nat := 0
  stop : Nat := 0
deriving Inhabited

structure ValueSpec where
  names : List Identifier
  type : Option Expr
  values : List Expr
  start : Nat := 0
  stop : Nat := 0
deriving Inhabited

structure ImportSpec where
  name : Option Identifier
  path : String
  start : Nat := 0
  stop : Nat := 0
deriving Inhabited

structure FunctionDecl where
  receiver : Option (List FieldGroup)
  name : Identifier
  typeParams : Option (List FieldGroup)
  signature : Signature
  body : Option (List Stmt)
  /-- Whether the body starts and ends on the same line. -/
  isOneLine : Bool := false

inductive DeclForm where
  | imports (specs : List ImportSpec)
  | types (specs : List TypeSpec)
  | constants (specs : List ValueSpec)
  | variables (specs : List ValueSpec)
  | function (d : FunctionDecl)
  | bad

structure Decl where
  form : DeclForm
  isGroup : Bool := false
  start : Nat := 0
  stop : Nat := 0

structure File where
  package : Identifier
  decls : List Decl

end Schemata.GoSyntax
