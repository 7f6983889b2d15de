import Schemata.Lowering
import Schemata.Naming.Style

/-!
Catalogs say how each target notation is written: its type tables, its naming styles, and which
normal forms it needs. A draft is a catalog as a file gives it, where every part may be left
out; drafts are merged part by part, checked, and then built.
-/

namespace Schemata

open Text Naming

structure NamingStyles where
  struct : Style := .unset
  field : Style := .unset
  constant : Style := .unset
  namespaces : Style := .unset
  file : Style := .unset
deriving DecidableEq, Repr

namespace NamingStyles

/-- The styles with the words messages call them by. -/
def roles (n : NamingStyles) : List (String × Style) :=
  [("struct", n.struct), ("field", n.field), ("constant", n.constant),
    ("namespace", n.namespaces), ("file", n.file)]

/-- A style that is set wins. -/
def override (old new : Style) : Style := if new = .unset then old else new

def merge (n o : NamingStyles) : NamingStyles where
  struct := override n.struct o.struct
  field := override n.field o.field
  constant := override n.constant o.constant
  namespaces := override n.namespaces o.namespaces
  file := override n.file o.file

end NamingStyles

structure Target where
  key : String
  fileExt : String
  comment : String := ""
  fallback : String := ""
  /-- Nested and inline structs are hoisted first. -/
  flatten : Bool := false
  /-- Variants and oneofs become enums with payloads first. -/
  lift : Bool := false
  naming : NamingStyles := {}
  table : Table := []
deriving Repr

namespace Target

def lowerer (t : Target) : Lowerer where
  table := t.table
  fallback := t.fallback

def filename (t : Target) (base : String) : String :=
  let name := t.naming.file.apply (if base.isEmpty then "schema" else base)
  if t.fileExt.isEmpty then name else name ++ "." ++ t.fileExt

end Target

structure Catalog where
  version : String
  targets : List (String × Target) := []
deriving Repr

namespace Catalog

def find? (c : Catalog) (key : String) : Option Target := c.targets.lookup key

def keys (c : Catalog) : List String := (c.targets.map (·.1)).mergeSort (· ≤ ·)

/-- What a file says of one target. -/
structure TargetDraft where
  /-- Empty when not given. -/
  fileExt : String := ""
  comment : Option String := none
  /-- Empty when not given. -/
  fallback : String := ""
  flatten : Option Bool := none
  lift : Option Bool := none
  /-- The templates by the name of the kind, each name once. -/
  rows : List (String × Row) := []
  naming : NamingStyles := {}
deriving DecidableEq, Repr

/-- What a file says, each target key once. -/
structure Draft where
  version : String := "1"
  targets : List (String × TargetDraft) := []
deriving DecidableEq, Repr

/-- Sets the entry of a key, at its place or at the end. -/
def put {α : Type} (entries : List (String × α)) (key : String) (a : α) : List (String × α) :=
  match entries with
  | [] => [(key, a)]
  | (k, b) :: rest => if k = key then (k, a) :: rest else (k, b) :: put rest key a

/-- What the second draft gives wins over the first, type rows one by one. -/
def TargetDraft.merge (t o : TargetDraft) : TargetDraft where
  fileExt := if o.fileExt.isEmpty then t.fileExt else o.fileExt
  comment := o.comment.or t.comment
  fallback := if o.fallback.isEmpty then t.fallback else o.fallback
  flatten := o.flatten.or t.flatten
  lift := o.lift.or t.lift
  rows := o.rows.foldl (fun rows (name, row) => put rows name row) t.rows
  naming := t.naming.merge o.naming

/-- Targets of the second draft are merged into those of the first, or added. The version stays
that of the first. -/
def Draft.merge (b o : Draft) : Draft where
  version := b.version
  targets := o.targets.foldl (fun targets (key, ot) =>
    put targets key (match targets.lookup key with
      | some t => t.merge ot
      | none => ot)) b.targets

inductive Fault where
  | emptyKey
  | unknownKind (target name : String)
  /-- A template asks for an argument its kind does not have. -/
  | badTemplate (target : String) (kind : Kind) (template : String) (position slots : Nat)
  | unknownStyle (target role style : String)
deriving DecidableEq, Repr

namespace Fault

def message : Fault → String
  | .emptyKey => "target with empty key"
  | .unknownKind target name => "target " ++ quote target ++ ": unknown kind " ++ quote name
  | .badTemplate target kind template position slots =>
    "target " ++ quote target ++ ": kind " ++ quote kind.name ++ ": template " ++ quote template ++
      r" uses {" ++ toString position ++ r"} but " ++ kind.name ++ " has " ++ toString slots ++
      " argument(s)"
  | .unknownStyle target role style =>
    "target " ++ quote target ++ ": unknown " ++ role ++ " naming style " ++ quote style

def hint : Fault → String
  | .unknownKind _ _ => "kind names are lower case, e.g. int32, unordered_map, struct_ref"
  | _ => ""

end Fault

/-- How many arguments the templates of a kind get, `none` when any number. -/
def slots : Kind → Option Nat
  | .variant | .tuple => none
  | .list | .set | .unorderedSet | .optional | .pointer | .uniquePtr | .sharedPtr
  | .structRef => some 1
  | .map | .unorderedMap | .pair | .array => some 2
  | _ => some 0

/-- Whether a template asks only for arguments its kind has. -/
def checkTemplate (target : String) (kind : Kind) (template : String) : Except Fault Unit :=
  match slots kind, Template.highest? template with
  | some n, some i => if i ≥ n then .error (.badTemplate target kind template i n) else .ok ()
  | _, _ => .ok ()

def checkRow (target : String) : String × Row → Except Fault Unit
  | (name, row) =>
    match Kind.ofName? name with
    | none | some .unknown => .error (.unknownKind target name)
    | some kind => do
      checkTemplate target kind row.name
      checkTemplate target kind row.default

def sorted {α : Type} (entries : List (String × α)) : List (String × α) :=
  entries.mergeSort fun a b => a.1 ≤ b.1

def TargetDraft.check (key : String) (t : TargetDraft) : Except Fault Unit := do
  if key.isEmpty then throw .emptyKey
  (sorted t.rows).forM (checkRow key)
  t.naming.roles.forM fun (role, style) =>
    if style.isValid then .ok () else .error (.unknownStyle key role style.name)

/-- The first fault of a draft, targets and kinds taken in the order of their names. -/
def Draft.check (d : Draft) : Except Fault Unit :=
  (sorted d.targets).forM fun (key, t) => t.check key

def TargetDraft.build (key : String) (t : TargetDraft) : Target where
  key := key
  fileExt := if t.fileExt.isEmpty then key else t.fileExt
  comment := t.comment.getD ""
  fallback := t.fallback
  flatten := t.flatten.getD false
  lift := t.lift.getD false
  naming := t.naming
  table := t.rows.filterMap fun (name, row) => (Kind.ofName? name).map (·, row)

def Draft.build (d : Draft) : Except Fault Catalog := do
  d.check
  return { version := d.version, targets := d.targets.map fun (key, t) => (key, t.build key) }

end Catalog

end Schemata
