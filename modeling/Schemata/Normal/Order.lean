import Schemata.Schema.Basic

/-!
Ordering declarations so that each comes after those it holds by value. Owning pointers do not
constrain the order; optionals and containers do. Of the declarations that may come next the
first of the list does, so a list in order stays as it is.
-/

namespace Schemata.Normal

mutual

/-- The names a type holds by value. -/
def valueRefsOfType : TypeExpr → List String
  | .missing | .primitive _ _ | .emptyInline => []
  | .reference name _ => [name]
  | .indirection k elem => if k.isOwnership then [] else valueRefsOfType elem
  | .generic _ args _ => valueRefsOfTypes args
  | .inline body => valueRefsOfStruct body

def valueRefsOfTypes : List TypeExpr → List String
  | [] => []
  | t :: ts => valueRefsOfType t ++ valueRefsOfTypes ts

def valueRefsOfStruct : Struct → List String
  | ⟨_, _, _, _, _, _, _, base, members⟩ =>
    (if base = "" then [] else [base]) ++ valueRefsOfMembers members

def valueRefsOfMembers : List Member → List String
  | [] => []
  | .field ⟨_, type, _⟩ :: ms => valueRefsOfType type ++ valueRefsOfMembers ms
  | .oneof ⟨_, _, alts⟩ :: ms => valueRefsOfAlternatives alts ++ valueRefsOfMembers ms
  | .enum _ :: ms => valueRefsOfMembers ms
  | .struct s :: ms => valueRefsOfStruct s ++ valueRefsOfMembers ms

def valueRefsOfAlternatives : List Alternative → List String
  | [] => []
  | ⟨_, type, _⟩ :: alts => valueRefsOfType type ++ valueRefsOfAlternatives alts

end

/-- The names a declaration holds by value, with repetitions. -/
def valueRefs : Node → List String
  | .struct s => valueRefsOfStruct s
  | .enum e => e.values.flatMap fun v => valueRefsOfType v.payload
  | .oneof o => valueRefsOfAlternatives o.alternatives
  | .space _ _ | .service _ => []

variable (nodes : List Node)

/-- The positions a node depends on: for each name it holds by value, the first node of that
name, itself apart. -/
def dependencies (i : Nat) : List Nat :=
  match nodes[i]? with
  | none => []
  | some n => (valueRefs n).filterMap fun name =>
    (nodes.findIdx? (·.name == name)).bind fun j => if j = i then none else some j

/-- The positions that depend on one, each as often as it does, in increasing order. -/
def dependents (deps : List (List Nat)) (d : Nat) : List Nat :=
  (List.range deps.length).flatMap fun i => List.replicate ((deps.getD i []).count d) i

/-- What can be placed next, and what has to wait. -/
structure Queue where
  /-- For each position, how many of its dependencies are not placed yet. -/
  waiting : List Nat
  /-- The positions left that wait for none, in increasing order. -/
  ready : List Nat
deriving DecidableEq, Repr

namespace Queue

def start (deps : List (List Nat)) : Queue where
  waiting := deps.map List.length
  ready := (List.range deps.length).filter fun i => (deps.getD i []).isEmpty

def count (q : Queue) (i : Nat) : Nat := q.waiting.getD i 0

def enqueue (i : Nat) (ready : List Nat) : List Nat :=
  ready.takeWhile (· < i) ++ i :: ready.dropWhile (· < i)

/-- One dependency of a position is placed; with the last one the position is ready. -/
def release (q : Queue) (i : Nat) : Queue :=
  { waiting := q.waiting.set i (q.count i - 1)
    ready := if q.count i - 1 = 0 then enqueue i q.ready else q.ready }

/-- Places `steps` positions, each time the first that is ready; `none` when there is no such
position. -/
def run? (deps : List (List Nat)) : (steps : Nat) → Queue → Option (List Nat)
  | 0, _ => some []
  | steps + 1, q =>
    match q.ready with
    | [] => none
    | i :: rest =>
      let released := (dependents deps i).foldl release { q with ready := rest }
      (run? deps steps released).map (i :: ·)

end Queue

/-- The positions in dependency order, if the dependencies have no cycle. -/
def placement? : Option (List Nat) :=
  let deps := (List.range nodes.length).map (dependencies nodes)
  Queue.run? deps nodes.length (.start deps)

/-- The nodes in dependency order, or `none` when they depend on each other in a cycle. -/
def inOrder? : Option (List Node) :=
  (placement? nodes).map fun order => order.filterMap (nodes[·]?)

/-- The nodes in dependency order, left as they are when there is a cycle. -/
def inOrder : List Node := (inOrder? nodes).getD nodes

end Schemata.Normal
