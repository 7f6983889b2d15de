import Schemata.Schema.Basic

/-!
The names a module declares, and fresh ones beside them. A name that is taken gets the least
number from two on that makes it free.
-/

namespace Schemata.Normal

mutual

/-- The declared names inside a type: those of its inline structs. -/
def namesOfType : TypeExpr → List String
  | .missing | .primitive _ _ | .reference _ _ | .emptyInline => []
  | .indirection _ elem => namesOfType elem
  | .generic _ args _ => namesOfTypes args
  | .inline body => namesOfStruct body

def namesOfTypes : List TypeExpr → List String
  | [] => []
  | t :: ts => namesOfType t ++ namesOfTypes ts

/-- The name of a struct, if it has one, and the names declared inside it. -/
def namesOfStruct : Struct → List String
  | ⟨name, _, _, _, _, _, _, _, members⟩ =>
    (if name = "" then [] else [name]) ++ namesOfMembers members

def namesOfMembers : List Member → List String
  | [] => []
  | .field ⟨_, type, _⟩ :: ms => namesOfType type ++ namesOfMembers ms
  | .oneof _ :: ms => namesOfMembers ms
  | .enum ⟨name, _, _, _, _, _⟩ :: ms => name :: namesOfMembers ms
  | .struct s :: ms => namesOfStruct s ++ namesOfMembers ms

end

/-- The names declared in a list of nodes, those of namespaces apart. -/
def namesOfNodes : List Node → List String
  | [] => []
  | .space _ inner :: rest => namesOfNodes inner ++ namesOfNodes rest
  | .struct s :: rest => namesOfStruct s ++ namesOfNodes rest
  | n :: rest => n.name :: namesOfNodes rest

/-- The first of `name2`, `name3`, … that is not taken, searching `tries` of them. -/
def firstFree (taken : List String) (name : String) : (tries next : Nat) → String
  | 0, next => name ++ toString next
  | tries + 1, next =>
    let candidate := name ++ toString next
    if taken.contains candidate then firstFree taken name tries (next + 1) else candidate

/-- The name itself if it is free, else the name with the least number that makes it so. -/
def freshName (taken : List String) (name : String) : String :=
  if taken.contains name then firstFree taken name taken.length 2 else name

end Schemata.Normal
