import Schemata.Toml.Expression

/-!
Which keys of a TOML text were given, so that nothing is given twice. Tables that a dotted key
or a header only passes through may be added to; what a header or a pair named itself may not
be named again.
-/

namespace Schemata.Toml

inductive SeenKind where
  | value
  | table
  | arrayTable
deriving DecidableEq, Repr

inductive Seen where
  /-- `named` tells that a header named it, `dotted` that a pair of the current table passed
  through it. -/
  | mk (kind : SeenKind) (named dotted : Bool) (children : List (String × Seen))

namespace Seen

def kind : Seen → SeenKind
  | .mk kind _ _ _ => kind

def named : Seen → Bool
  | .mk _ named _ _ => named

def children : Seen → List (String × Seen)
  | .mk _ _ _ children => children

def withChildren (s : Seen) (children : List (String × Seen)) : Seen :=
  match s with
  | .mk kind named dotted _ => .mk kind named dotted children

def root : Seen := .mk .table false false []

def put (children : List (String × Seen)) (name : String) (s : Seen) : List (String × Seen) :=
  match children with
  | [] => [(name, s)]
  | (n, old) :: rest => if n = name then (n, s) :: rest else (n, old) :: put rest name s

mutual

/-- Closes what pairs passed through: it now counts as named. -/
def close : Seen → Seen
  | .mk kind named dotted children =>
    .mk kind (named || dotted) false (closeAll children)

def closeAll : List (String × Seen) → List (String × Seen)
  | [] => []
  | (name, s) :: rest => (name, s.close) :: closeAll rest

end

/-- Closes what stands below a path. -/
def closeBelow (s : Seen) : List String → Seen
  | [] => s.withChildren (closeAll s.children)
  | name :: rest =>
    match s.children.lookup name with
    | some child => s.withChildren (put s.children name (child.closeBelow rest))
    | none => s

/-- Names a table by a header; it may not be named before. -/
def nameTable (s : Seen) : List String → Option Seen
  | [] => some s
  | [name] =>
    match s.children.lookup name with
    | some (.mk .table false dotted children) =>
      some (s.withChildren (put s.children name (.mk .table true dotted children)))
    | some _ => none
    | none => some (s.withChildren (put s.children name (.mk .table true false [])))
  | name :: rest =>
    match s.children.lookup name with
    | some child =>
      if child.kind = .value then none
      else (child.nameTable rest).map fun child => s.withChildren (put s.children name child)
    | none =>
      ((mk .table false false []).nameTable rest).map fun child =>
        s.withChildren (put s.children name child)

/-- Begins an entry of an array of tables, which starts with nothing seen. -/
def nameArrayTable (s : Seen) : List String → Option Seen
  | [] => some s
  | [name] =>
    match s.children.lookup name with
    | some (.mk .arrayTable named dotted _) =>
      some (s.withChildren (put s.children name (.mk .arrayTable named dotted [])))
    | some _ => none
    | none => some (s.withChildren (put s.children name (.mk .arrayTable true false [])))
  | name :: rest =>
    match s.children.lookup name with
    | some child =>
      if child.kind = .value then none
      else (child.nameArrayTable rest).map fun child =>
        s.withChildren (put s.children name child)
    | none =>
      ((mk .table false false []).nameArrayTable rest).map fun child =>
        s.withChildren (put s.children name child)

def nameValue (s : Seen) : List String → Option Seen
  | [] => some s
  | [name] =>
    match s.children.lookup name with
    | some _ => none
    | none => some (s.withChildren (put s.children name (.mk .value false true [])))
  | name :: rest =>
    match s.children.lookup name with
    | some child =>
      if child.kind ≠ .table || child.named then none
      else (child.nameValue rest).map fun child => s.withChildren (put s.children name child)
    | none =>
      ((mk .table false true []).nameValue rest).map fun child =>
        s.withChildren (put s.children name child)

def updateAt (s : Seen) (path : List String) (f : Seen → Option Seen) : Option Seen :=
  match path with
  | [] => f s
  | name :: rest =>
    match s.children.lookup name with
    | some child =>
      (child.updateAt rest f).map fun child => s.withChildren (put s.children name child)
    | none => none

end Seen

def names (key : List KeyPart) : List String := key.map (·.name)

mutual

/-- Whether no inline table inside a value gives a key twice. -/
def Value.isConsistent : Value → Bool
  | .array entries => areConsistent entries
  | .table _ pairs => pairsConsistent Seen.root pairs
  | _ => true

def areConsistent : List Value → Bool
  | [] => true
  | v :: rest => v.isConsistent && areConsistent rest

def pairsConsistent (seen : Seen) : List (List KeyPart × Value) → Bool
  | [] => true
  | (key, v) :: rest =>
    match seen.nameValue (names key) with
    | some seen => v.isConsistent && pairsConsistent seen rest
    | none => false

end

structure Tracking where
  seen : Seen := Seen.root
  current : List String := []

/-- Takes an expression into account; none when it gives something twice. -/
def Tracking.add (t : Tracking) : Expression → Option Tracking
  | .pair key v =>
    match t.seen.updateAt t.current (·.nameValue (names key)) with
    | some seen => if v.isConsistent then some { t with seen } else none
    | none => none
  | .table key =>
    ((t.seen.closeBelow t.current).nameTable (names key)).map fun seen => ⟨seen, names key⟩
  | .arrayTable key =>
    ((t.seen.closeBelow t.current).nameArrayTable (names key)).map fun seen => ⟨seen, names key⟩

end Schemata.Toml
