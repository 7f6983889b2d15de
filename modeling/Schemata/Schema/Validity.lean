import Schemata.Schema.Path

/-!
The rules every schema follows: kinds agree with shapes, containers have their arguments, types
and names are given where they are needed, and names do not repeat within a declaration.
-/

namespace Schemata

inductive Problem where
  | unnamedStruct
  | duplicateMember
  | duplicateValue
  | emptyOneof
  | missingType
  | notPrimitive (kind : Kind)
  | unnamedReference
  | notIndirection (kind : Kind)
  | notContainer (kind : Kind)
  | wrongArity (kind : Kind) (wanted given : Nat)
  | noArguments (kind : Kind)
  | bodilessInline
deriving DecidableEq, Repr

def Problem.message : Problem → String
  | .unnamedStruct => "named struct without a name"
  | .duplicateMember => "duplicate member"
  | .duplicateValue => "duplicate enum value"
  | .emptyOneof => "oneof without alternatives"
  | .missingType => "missing type"
  | .notPrimitive k => "primitive with non-primitive kind " ++ k.name
  | .unnamedReference => "reference without a name"
  | .notIndirection k => "indirection with kind " ++ k.name
  | .notContainer k => "parameterized type with kind " ++ k.name
  | .wrongArity k wanted given => s!"{k.name} takes {wanted} arguments, got {given}"
  | .noArguments k => k.name ++ " without arguments"
  | .bodilessInline => "inline without a struct"

structure Issue where
  path : String
  problem : Problem
deriving DecidableEq, Repr

def Issue.text (i : Issue) : String := i.path ++ ": " ++ i.problem.message

/-- What is wrong with a container of that kind and number of arguments. -/
def arityProblems (kind : Kind) (given : Nat) : List Problem :=
  if !kind.isContainer then [.notContainer kind]
  else match kind.arity? with
    | some wanted => if given = wanted then [] else [.wrongArity kind wanted given]
    | none => if given = 0 then [.noArguments kind] else []

/-- A slot that an earlier member took; members without a slot never clash. -/
def slotIssues (path : String) (seen : List String) (slot : String) : List Issue :=
  if slot ≠ "" ∧ seen.contains slot then [⟨joinPath path slot, .duplicateMember⟩] else []

mutual

def TypeExpr.issues (path : String) : TypeExpr → List Issue
  | .missing => [⟨path, .missingType⟩]
  | .primitive k _ => if k ≠ .unknown ∧ !k.isPrimitive then [⟨path, .notPrimitive k⟩] else []
  | .reference name _ => if name = "" then [⟨path, .unnamedReference⟩] else []
  | .indirection k elem =>
    (if k.isIndirection then [] else [⟨path, .notIndirection k⟩]) ++ elem.issues path
  | .generic k args _ =>
    (arityProblems k args.length).map (⟨path, ·⟩) ++ issuesOfTypes path args
  | .inline body => body.issues path
  | .emptyInline => [⟨path, .bodilessInline⟩]

def issuesOfTypes (path : String) : List TypeExpr → List Issue
  | [] => []
  | t :: ts => t.issues path ++ issuesOfTypes path ts

def Struct.issues (path : String) : Struct → List Issue
  | ⟨name, _, _, isAnonymous, _, _, _, _, members⟩ =>
    (if !isAnonymous && name == "" then [⟨path, .unnamedStruct⟩] else []) ++
      issuesOfMembers path [] members

/-- `seen` holds the slots taken by earlier members. -/
def issuesOfMembers (path : String) (seen : List String) : List Member → List Issue
  | [] => []
  | .field ⟨name, type, _⟩ :: ms =>
    slotIssues path seen name ++ type.issues (joinPath path name) ++
      issuesOfMembers path (name :: seen) ms
  | .oneof ⟨name, _, alts⟩ :: ms =>
    slotIssues path seen name ++
      (if alts.isEmpty then [⟨joinPath path name, .emptyOneof⟩] else []) ++
      issuesOfAlternatives (joinPath path name) alts ++ issuesOfMembers path (name :: seen) ms
  | .enum ⟨name, _, _, _, _, values⟩ :: ms =>
    issuesOfValues (joinPath path name) [] values ++ issuesOfMembers path seen ms
  | .struct ⟨name, _, _, isAnonymous, varName, _, _, _, members⟩ :: ms =>
    let inner := joinPath path (if varName = "" then name else varName)
    slotIssues path seen varName ++
      (if !isAnonymous && name == "" then [⟨inner, .unnamedStruct⟩] else []) ++
      issuesOfMembers inner [] members ++ issuesOfMembers path (varName :: seen) ms

def issuesOfAlternatives (path : String) : List Alternative → List Issue
  | [] => []
  | ⟨name, type, _⟩ :: alts =>
    (if type.isMissing then [] else type.issues (joinPath path name)) ++
      issuesOfAlternatives path alts

def issuesOfValues (path : String) (seen : List String) : List EnumValue → List Issue
  | [] => []
  | ⟨name, _, _, payload⟩ :: values =>
    (if seen.contains name then [⟨joinPath path name, .duplicateValue⟩] else []) ++
      (if payload.isMissing then [] else payload.issues (joinPath path name)) ++
      issuesOfValues path (name :: seen) values

end

def issuesOfNodes (path : String) : List Node → List Issue
  | [] => []
  | .struct s :: rest => s.issues (joinPath path s.name) ++ issuesOfNodes path rest
  | .enum e :: rest => issuesOfValues (joinPath path e.name) [] e.values ++ issuesOfNodes path rest
  | .oneof o :: rest =>
    (if o.alternatives.isEmpty then [⟨joinPath path o.name, .emptyOneof⟩] else []) ++
      issuesOfAlternatives (joinPath path o.name) o.alternatives ++ issuesOfNodes path rest
  | .space name inner :: rest =>
    issuesOfNodes (joinPath path name) inner ++ issuesOfNodes path rest
  | .service _ :: rest => issuesOfNodes path rest

/-- Every broken rule of a module; a module is valid when there is none. -/
def Module.issues (m : Module) : List Issue := issuesOfNodes "" m.nodes

end Schemata
