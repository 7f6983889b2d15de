import Schemata.Schema.Basic

/-!
Dotted paths to declarations, members and types, and what is found by walking along them.
-/

namespace Schemata

/-- Appends a name to a path; an empty part leaves no dot behind. -/
def joinPath (path name : String) : String :=
  if path = "" then name
  else if name = "" then path
  else path ++ "." ++ name

/-- What is left of a list after a prefix. -/
def afterPrefix? [DecidableEq α] : List α → List α → Option (List α)
  | [], rest => some rest
  | _ :: _, [] => none
  | a :: as, b :: bs => if a = b then afterPrefix? as bs else none

/-- The rest of a dotted name below a namespace, if the name goes into it. -/
def below? (space name : String) : Option String :=
  match afterPrefix? (space.toList ++ ['.']) name.toList with
  | some (c :: rest) => some (String.ofList (c :: rest))
  | _ => none

/-- Whether a node is a declaration of that name, a namespace apart. -/
def Node.declares (name : String) : Node → Bool
  | .space _ _ => false
  | n => n.name == name

mutual

/-- The declaration a dotted name leads to through a node, if that is a namespace. -/
def findInside : Node → String → Option Node
  | .space space inner, name =>
    match below? space name with
    | some tail =>
      match inner.find? (Node.declares tail) with
      | some n => some n
      | none => findBelow inner tail
    | none => none
  | _, _ => none

/-- The declaration a dotted name leads to through the namespaces of a list. -/
def findBelow : List Node → String → Option Node
  | [], _ => none
  | d :: rest, name =>
    match findInside d name with
    | some n => some n
    | none => findBelow rest name

end

/-- The declaration of a name: one of the list itself first, then one inside its namespaces. -/
def findNode? (nodes : List Node) (name : String) : Option Node :=
  (nodes.find? (Node.declares name)).or (findBelow nodes name)

/-- The names declared in a list of nodes, each plain and with its namespace path. -/
def declaredNames (path : String) : List Node → List String
  | [] => []
  | .space space inner :: rest => declaredNames (joinPath path space) inner ++ declaredNames path rest
  | n :: rest => n.name :: joinPath path n.name :: declaredNames path rest

mutual

/-- Every type inside a type, itself first, with the path of the member that holds it. -/
def TypeExpr.visits (path : String) : TypeExpr → List (String × TypeExpr)
  | .missing => []
  | .primitive k s => [(path, .primitive k s)]
  | .reference n k => [(path, .reference n k)]
  | .indirection k elem => (path, .indirection k elem) :: elem.visits path
  | .generic k args len => (path, .generic k args len) :: visitsOfTypes path args
  | .inline body => (path, .inline body) :: body.visits path
  | .emptyInline => [(path, .emptyInline)]

def visitsOfTypes (path : String) : List TypeExpr → List (String × TypeExpr)
  | [] => []
  | t :: ts => t.visits path ++ visitsOfTypes path ts

def Struct.visits (path : String) : Struct → List (String × TypeExpr)
  | ⟨_, _, _, _, _, _, _, _, members⟩ => visitsOfMembers path members

def visitsOfMembers (path : String) : List Member → List (String × TypeExpr)
  | [] => []
  | m :: ms => m.visits path ++ visitsOfMembers path ms

/-- The types of a member of the struct at `path`. -/
def Member.visits (path : String) : Member → List (String × TypeExpr)
  | .field ⟨name, type, _⟩ => type.visits (joinPath path name)
  | .oneof ⟨name, _, alts⟩ => visitsOfAlternatives (joinPath path name) alts
  | .enum ⟨name, _, _, _, _, values⟩ => visitsOfValues (joinPath path name) values
  | .struct ⟨name, _, _, _, _, _, _, _, members⟩ => visitsOfMembers (joinPath path name) members

def visitsOfAlternatives (path : String) : List Alternative → List (String × TypeExpr)
  | [] => []
  | ⟨name, type, _⟩ :: alts => type.visits (joinPath path name) ++ visitsOfAlternatives path alts

def visitsOfValues (path : String) : List EnumValue → List (String × TypeExpr)
  | [] => []
  | ⟨name, _, _, payload⟩ :: values =>
    payload.visits (joinPath path name) ++ visitsOfValues path values

end

/-- Every type of a list of nodes below `path`, in order. -/
def visitsOfNodes (path : String) : List Node → List (String × TypeExpr)
  | [] => []
  | .struct s :: rest => s.visits (joinPath path s.name) ++ visitsOfNodes path rest
  | .enum e :: rest =>
    visitsOfValues (joinPath path e.name) e.values ++ visitsOfNodes path rest
  | .oneof o :: rest =>
    visitsOfAlternatives (joinPath path o.name) o.alternatives ++ visitsOfNodes path rest
  | .space name inner :: rest =>
    visitsOfNodes (joinPath path name) inner ++ visitsOfNodes path rest
  | .service _ :: rest => visitsOfNodes path rest

def Module.references (m : Module) : List String :=
  (visitsOfNodes "" m.nodes).filterMap fun
    | (_, .reference name _) => some name
    | _ => none

/-- The names a module refers to but does not declare, in order and without repetition. -/
def Module.unresolved (m : Module) : List String :=
  let declared := declaredNames "" m.nodes
  ((m.references.filter (!declared.contains ·)).mergeSort (· ≤ ·)).eraseReps

end Schemata
