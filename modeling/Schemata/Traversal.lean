import Schemata.Schema.Basic

/-!
The traversal every writer shares. It fixes the order in which the declarations of a module are
met, one or more passes over all of them, and asks hooks for the text of each piece.
-/

namespace Schemata

/-- A pass over the module. Writers that need declarations before definitions make two. -/
inductive Pass where
  | normal
  | declare
  | other (number : Int)
deriving DecidableEq, Repr

namespace Pass

def ofNumber : Int → Pass
  | 0 => .normal
  | 1 => .declare
  | n => .other n

def name : Pass → String
  | .normal => "normal"
  | .declare => "declare"
  | .other n => "Pass(" ++ toString n ++ ")"

end Pass

structure Context where
  pass : Pass := .normal
  level : Nat := 0
  unit : String := ""
  /-- The enclosing namespaces, the module's own first. -/
  namespaces : List String := []
  parent : Option Struct := none
  owner : Option Enum := none

def Context.indent (c : Context) : String :=
  String.join (List.replicate c.level c.unit)

def Context.nest (c : Context) : Context := { c with level := c.level + 1 }

/-- The text of every piece of a module. A field and a value also get the traversal of their type,
to run where its text is needed. -/
structure Hooks (m : Type → Type) [Monad m] where
  header : Module → Context → m String := fun _ _ => pure ""
  footer : Module → Context → m String := fun _ _ => pure ""
  spaceOpen : String → Context → m String := fun _ _ => pure ""
  spaceClose : String → Context → m String := fun _ _ => pure ""
  structOpen : Struct → Context → m String := fun _ _ => pure ""
  structClose : Struct → Context → m String := fun _ _ => pure ""
  field : Field → m String → Context → m String := fun _ _ _ => pure ""
  enumOpen : Enum → Context → m String := fun _ _ => pure ""
  /-- The flag tells whether the value is the last one. -/
  enumValue : EnumValue → Bool → m String → Context → m String := fun _ _ _ _ => pure ""
  enumClose : Enum → Context → m String := fun _ _ => pure ""
  oneof : Oneof → Context → m String := fun _ _ => pure ""
  service : Service → Context → m String := fun _ _ => pure ""
  /-- Takes over a node, or leaves it to the traversal. -/
  takeNode : Node → Context → m (Option String) := fun _ _ => pure none
  /-- Takes over a member, or leaves it to the traversal. -/
  takeMember : Member → Context → m (Option String) := fun _ _ => pure none
  primitiveType : Kind → String → String := fun _ _ => ""
  referenceType : String → Kind → String := fun name _ => name
  indirectionType : Kind → String → String := fun _ _ => ""
  genericType : Kind → List String → String := fun _ _ => ""
  /-- An inline struct with the text of its own traversal. -/
  inlineType : Option String → String := fun _ => ""

structure Walker (m : Type → Type) [Monad m] where
  hooks : Hooks m
  passes : List Pass := [.normal]
  unit : String := "    "
  /-- Whether the contents of a namespace stay at its own level. -/
  flatSpaces : Bool := false

namespace Walker

variable {m : Type → Type} [Monad m] (w : Walker m)

mutual

def type : TypeExpr → m String
  | .missing => pure ""
  | .primitive k s => pure (w.hooks.primitiveType k s)
  | .reference name k => pure (w.hooks.referenceType name k)
  | .indirection k elem => do return w.hooks.indirectionType k (← type elem)
  | .generic k args _ => do return w.hooks.genericType k (← types args)
  | .inline body => do return w.hooks.inlineType (some (← struct {} body))
  | .emptyInline => pure (w.hooks.inlineType none)

def types : List TypeExpr → m (List String)
  | [] => pure []
  | t :: ts => do
    let head ← type t
    return head :: (← types ts)

/-- A struct: its opening, each member one level deeper, its closing. -/
def struct (c : Context) : Struct → m String
  | ⟨name, spaces, attrs, anonymous, var, record, abstract, base, ms⟩ => do
    let s : Struct := ⟨name, spaces, attrs, anonymous, var, record, abstract, base, ms⟩
    let opening ← w.hooks.structOpen s c
    let body ← members { c.nest with parent := some s } ms
    let closing ← w.hooks.structClose s c
    return opening ++ body ++ closing

def members (c : Context) : List Member → m String
  | [] => pure ""
  | x :: xs => do
    let head ← member c x
    return head ++ (← members c xs)

def member (c : Context) : Member → m String
  | .field ⟨name, t, attrs⟩ => do
    match ← w.hooks.takeMember (.field ⟨name, t, attrs⟩) c with
    | some text => return text
    | none => w.hooks.field ⟨name, t, attrs⟩ (type t) c
  | .oneof o => do
    match ← w.hooks.takeMember (.oneof o) c with
    | some text => return text
    | none => w.hooks.oneof o c
  | .enum ⟨name, spaces, attrs, isScoped, underlying, vs⟩ => do
    let e : Enum := ⟨name, spaces, attrs, isScoped, underlying, vs⟩
    match ← w.hooks.takeMember (.enum e) c with
    | some text => return text
    | none =>
      let opening ← w.hooks.enumOpen e c
      let body ← enumValues { c.nest with owner := some e } vs
      let closing ← w.hooks.enumClose e c
      return opening ++ body ++ closing
  | .struct ⟨name, spaces, attrs, anonymous, var, record, abstract, base, ms⟩ => do
    let s : Struct := ⟨name, spaces, attrs, anonymous, var, record, abstract, base, ms⟩
    match ← w.hooks.takeMember (.struct s) c with
    | some text => return text
    | none =>
      let opening ← w.hooks.structOpen s c
      let body ← members { c.nest with parent := some s } ms
      let closing ← w.hooks.structClose s c
      return opening ++ body ++ closing

def enumValues (c : Context) : List EnumValue → m String
  | [] => pure ""
  | ⟨name, number, attrs, payload⟩ :: vs => do
    let head ← w.hooks.enumValue ⟨name, number, attrs, payload⟩ vs.isEmpty (type payload) c
    return head ++ (← enumValues c vs)

end

/-- An enum: its opening, each value one level deeper, its closing. -/
def enum (c : Context) (e : Enum) : m String := do
  let opening ← w.hooks.enumOpen e c
  let body ← w.enumValues { c.nest with owner := some e } e.values
  let closing ← w.hooks.enumClose e c
  return opening ++ body ++ closing

def inside (c : Context) (name : String) : Context :=
  { (if w.flatSpaces then c else c.nest) with namespaces := c.namespaces ++ [name] }

def nodes (c : Context) : List Node → m String
  | [] => pure ""
  | .struct s :: rest => do
    let head ← match ← w.hooks.takeNode (.struct s) c with
      | some text => pure text
      | none => w.struct c s
    return head ++ (← nodes c rest)
  | .enum e :: rest => do
    let head ← match ← w.hooks.takeNode (.enum e) c with
      | some text => pure text
      | none => w.enum c e
    return head ++ (← nodes c rest)
  | .oneof o :: rest => do
    let head ← match ← w.hooks.takeNode (.oneof o) c with
      | some text => pure text
      | none => w.hooks.oneof o c
    return head ++ (← nodes c rest)
  | .space name inner :: rest => do
    let head ← match ← w.hooks.takeNode (.space name inner) c with
      | some text => pure text
      | none => do
        let opening ← w.hooks.spaceOpen name c
        let body ← nodes (w.inside c name) inner
        let closing ← w.hooks.spaceClose name c
        pure (opening ++ body ++ closing)
    return head ++ (← nodes c rest)
  | .service s :: rest => do
    let head ← match ← w.hooks.takeNode (.service s) c with
      | some text => pure text
      | none => w.hooks.service s c
    return head ++ (← nodes c rest)

def outermost (mod : Module) (pass : Pass) : Context :=
  { pass, unit := w.unit, namespaces := mod.namespaces }

def passesOver (mod : Module) : List Pass → m String
  | [] => pure ""
  | p :: ps => do
    let head ← w.nodes (w.outermost mod p) mod.nodes
    return head ++ (← passesOver mod ps)

/-- The whole module: the header, every pass, the footer. -/
def walk (mod : Module) : m String := do
  let c := w.outermost mod (w.passes.headD .normal)
  let opening ← w.hooks.header mod c
  let body ← w.passesOver mod w.passes
  let closing ← w.hooks.footer mod c
  return opening ++ body ++ closing

end Walker

end Schemata
