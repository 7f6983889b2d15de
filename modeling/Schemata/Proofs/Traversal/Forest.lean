import Schemata.Proofs.Normal.Declarations
import Schemata.Proofs.Traversal.Pieces

/-!
The traversal as a walk over trees. The declarations of a module form a forest: structs, enums and
namespaces are branches, everything else is a leaf. A pass without takeovers calls the hooks along
this forest, opening a branch before what it holds and closing it behind, and the context of a
call depends on nothing but the branches around it.
-/

namespace Schemata.Traversal

/-- What is opened before the declarations it holds and closed behind them. -/
inductive Bracket where
  | space (name : String)
  | struct (s : Struct)
  | enum (e : Enum)

inductive Leaf where
  | field (f : Field)
  | oneof (o : Oneof)
  | service (s : Service)
  | value (v : EnumValue) (isLast : Bool)

inductive Tree where
  | leaf (l : Leaf)
  | branch (b : Bracket) (inner : List Tree)

/-! ### The forest of a module -/

/-- The values of an enum, of which the one at the end is the last. -/
def valueTrees (values : List EnumValue) : List Tree :=
  values.mapIdx fun i v => .leaf (.value v (i + 1 == values.length))

def enumTree (e : Enum) : Tree := .branch (.enum e) (valueTrees e.values)

mutual

def memberTree : Member → Tree
  | .field f => .leaf (.field f)
  | .oneof o => .leaf (.oneof o)
  | .enum e => enumTree e
  | .struct ⟨name, spaces, attrs, anonymous, var, record, abstract, base, ms⟩ =>
    .branch (.struct ⟨name, spaces, attrs, anonymous, var, record, abstract, base, ms⟩)
      (memberTrees ms)

def memberTrees : List Member → List Tree
  | [] => []
  | x :: xs => memberTree x :: memberTrees xs

end

def structTree (s : Struct) : Tree := .branch (.struct s) (memberTrees s.members)

def forest : List Node → List Tree
  | [] => []
  | .struct s :: rest => structTree s :: forest rest
  | .enum e :: rest => enumTree e :: forest rest
  | .oneof o :: rest => .leaf (.oneof o) :: forest rest
  | .space name inner :: rest => .branch (.space name) (forest inner) :: forest rest
  | .service s :: rest => .leaf (.service s) :: forest rest

theorem valueTrees_cons (v : EnumValue) (values : List EnumValue) :
    valueTrees (v :: values) = .leaf (.value v values.isEmpty) :: valueTrees values := by
  have hlast : (0 + 1 == (v :: values).length) = values.isEmpty := by
    cases values <;> rfl
  rw [valueTrees, List.mapIdx_cons, hlast]
  simp [valueTrees]

/-! ### Walking over trees -/

inductive Event where
  | opened (b : Bracket)
  | met (l : Leaf)
  | closed (b : Bracket)

mutual

/-- A walk over a tree that stands inside of brackets, the outermost first. Every event comes with
the brackets around it. -/
def Tree.walk (around : List Bracket) : Tree → List (List Bracket × Event)
  | .leaf l => [(around, .met l)]
  | .branch b inner =>
    (around, .opened b) :: walkTrees (around ++ [b]) inner ++ [(around, .closed b)]

def walkTrees (around : List Bracket) : List Tree → List (List Bracket × Event)
  | [] => []
  | t :: ts => t.walk around ++ walkTrees around ts

end

/-- Steps of a walk that open and close brackets in turn. Before the steps the brackets `around`
are open and after them the brackets `after`; every step comes with those open at its time. -/
inductive Nests : List Bracket → List (List Bracket × Event) → List Bracket → Prop where
  | done (around : List Bracket) : Nests around [] around
  | opened {around after : List Bracket} {b : Bracket} {steps : List (List Bracket × Event)}
      (h : Nests (around ++ [b]) steps after) : Nests around ((around, .opened b) :: steps) after
  | met {around after : List Bracket} {l : Leaf} {steps : List (List Bracket × Event)}
      (h : Nests around steps after) : Nests around ((around, .met l) :: steps) after
  | closed {around after : List Bracket} {b : Bracket} {steps : List (List Bracket × Event)}
      (h : Nests around steps after) : Nests (around ++ [b]) ((around, .closed b) :: steps) after

mutual

theorem Tree.nests_walk : ∀ (t : Tree) {around after : List Bracket}
    {steps : List (List Bracket × Event)}, Nests around steps after →
      Nests around (t.walk around ++ steps) after
  | .leaf l, _, _, _, h => by
    rw [Tree.walk]
    exact .met h
  | .branch b inner, around, _, steps, h => by
    have hinner := nests_append inner (Nests.closed (b := b) h)
    rw [Tree.walk, List.append_assoc]
    exact .opened hinner

theorem nests_append : ∀ (ts : List Tree) {around after : List Bracket}
    {steps : List (List Bracket × Event)}, Nests around steps after →
      Nests around (walkTrees around ts ++ steps) after
  | [], _, _, _, h => by
    rw [walkTrees]
    exact h
  | t :: ts, _, _, _, h => by
    rw [walkTrees, List.append_assoc]
    exact t.nests_walk (nests_append ts h)

end

/-- A walk over trees leaves the brackets open that were open before. -/
theorem nests_walkTrees (around : List Bracket) (ts : List Tree) :
    Nests around (walkTrees around ts) around := by
  simpa using nests_append ts (.done around)

namespace Bracket

def isSpace : Bracket → Bool
  | .space _ => true
  | _ => false

def space? : Bracket → Option String
  | .space name => some name
  | _ => none

def struct? : Bracket → Option Struct
  | .struct s => some s
  | _ => none

def enum? : Bracket → Option Enum
  | .enum e => some e
  | _ => none

end Bracket

inductive Call where
  | header (mod : Module) (c : Context)
  | event (e : Event) (c : Context)
  | footer (mod : Module) (c : Context)

end Schemata.Traversal

namespace Schemata.Walker

open Traversal

variable {m : Type → Type} [Monad m] (w : Walker m) (mod : Module) (pass : Pass)
  (around : List Bracket)

/-- The context inside of brackets: structs and enums count as levels, namespaces only unless they
are flat, and the innermost struct is the parent. -/
def contextIn : Context where
  pass := pass
  level := around.countP (!·.isSpace) + if w.flatSpaces then 0 else around.countP (·.isSpace)
  unit := w.unit
  namespaces := mod.namespaces ++ around.filterMap Bracket.space?
  parent := (around.filterMap Bracket.struct?).getLast?
  owner := (around.filterMap Bracket.enum?).getLast?

/-- The calls along a walk. -/
def callsAlong (steps : List (List Bracket × Event)) : List Call :=
  steps.map fun (around, e) => .event e (w.contextIn mod pass around)

def calls : List Call :=
  let outermost := w.contextIn mod (w.passes.headD .normal) []
  .header mod outermost ::
    w.passes.flatMap (fun p => w.callsAlong mod p (walkTrees [] (forest mod.nodes))) ++
    [.footer mod outermost]

def perform : Call → m String
  | .header mod c => w.hooks.header mod c
  | .footer mod c => w.hooks.footer mod c
  | .event (.opened (.space name)) c => w.hooks.spaceOpen name c
  | .event (.opened (.struct s)) c => w.hooks.structOpen s c
  | .event (.opened (.enum e)) c => w.hooks.enumOpen e c
  | .event (.closed (.space name)) c => w.hooks.spaceClose name c
  | .event (.closed (.struct s)) c => w.hooks.structClose s c
  | .event (.closed (.enum e)) c => w.hooks.enumClose e c
  | .event (.met (.field f)) c => w.hooks.field f (w.type f.type) c
  | .event (.met (.oneof o)) c => w.hooks.oneof o c
  | .event (.met (.service s)) c => w.hooks.service s c
  | .event (.met (.value v isLast)) c => w.hooks.enumValue v isLast (w.type v.payload) c

def performAll (calls : List Call) : m String :=
  String.join <$> calls.mapM w.perform

/-- The hooks leave every declaration to the traversal. -/
structure TakesNothing : Prop where
  node : ∀ d c, w.hooks.takeNode d c = pure none
  member : ∀ x c, w.hooks.takeMember x c = pure none

theorem contextIn_space (name : String) :
    w.contextIn mod pass (around ++ [.space name]) =
      w.inside (w.contextIn mod pass around) name := by
  cases hflat : w.flatSpaces <;>
    simp [contextIn, inside, Context.nest, hflat, Bracket.isSpace, Bracket.space?, Bracket.struct?,
      Bracket.enum?, Nat.add_assoc]

theorem contextIn_struct (s : Struct) :
    w.contextIn mod pass (around ++ [.struct s]) =
      { (w.contextIn mod pass around).nest with parent := some s } := by
  simp [contextIn, Context.nest, Bracket.isSpace, Bracket.space?, Bracket.struct?, Bracket.enum?]
  omega

theorem contextIn_enum (e : Enum) :
    w.contextIn mod pass (around ++ [.enum e]) =
      { (w.contextIn mod pass around).nest with owner := some e } := by
  simp [contextIn, Context.nest, Bracket.isSpace, Bracket.space?, Bracket.struct?, Bracket.enum?]
  omega

theorem outermost_eq : w.outermost mod pass = w.contextIn mod pass [] := by
  simp [outermost, contextIn]

variable [LawfulMonad m]

theorem performAll_nil : w.performAll [] = pure "" := by
  simp [performAll]

theorem performAll_cons (x : Call) (xs : List Call) : w.performAll (x :: xs) = do
      let head ← w.perform x
      return head ++ (← w.performAll xs) := by
  simp [performAll, String.join_cons]

theorem performAll_append (xs ys : List Call) : w.performAll (xs ++ ys) = do
      let front ← w.performAll xs
      return front ++ (← w.performAll ys) := by
  simp [performAll, String.join_append]

/-- What is written along the walk over a tree. -/
def overTree (t : Tree) : m String :=
  w.performAll (w.callsAlong mod pass (t.walk around))

def overTrees (ts : List Tree) : m String :=
  w.performAll (w.callsAlong mod pass (walkTrees around ts))

theorem overTree_leaf (l : Leaf) :
    w.overTree mod pass around (.leaf l) =
      w.perform (.event (.met l) (w.contextIn mod pass around)) := by
  simp [overTree, Tree.walk, callsAlong, performAll_cons, performAll_nil]

theorem overTree_branch (b : Bracket) (inner : List Tree) :
    w.overTree mod pass around (.branch b inner) = do
      let opening ← w.perform (.event (.opened b) (w.contextIn mod pass around))
      let body ← w.overTrees mod pass (around ++ [b]) inner
      let closing ← w.perform (.event (.closed b) (w.contextIn mod pass around))
      return opening ++ body ++ closing := by
  simp [overTree, overTrees, Tree.walk, callsAlong, performAll_cons, performAll_append,
    performAll_nil, String.append_assoc]

theorem overTrees_nil : w.overTrees mod pass around [] = pure "" := by
  simp [overTrees, walkTrees, callsAlong, performAll_nil]

theorem overTrees_cons (t : Tree) (ts : List Tree) :
    w.overTrees mod pass around (t :: ts) = do
      let head ← w.overTree mod pass around t
      return head ++ (← w.overTrees mod pass around ts) := by
  simp [overTrees, overTree, walkTrees, callsAlong, performAll_append]

/-! ### The traversal follows the forest -/

theorem enumValues_eq (values : List EnumValue) :
    w.enumValues (w.contextIn mod pass around) values =
      w.overTrees mod pass around (valueTrees values) := by
  induction values with
  | nil => rw [enumValues]; exact (w.overTrees_nil mod pass around).symm
  | cons v values ih =>
    cases v
    rw [enumValues, valueTrees_cons, overTrees_cons, overTree_leaf, ih]
    rfl

theorem enum_eq (e : Enum) :
    w.enum (w.contextIn mod pass around) e = w.overTree mod pass around (enumTree e) := by
  rw [enum, enumTree, overTree_branch, ← enumValues_eq, contextIn_enum]
  rfl

mutual

theorem member_eq (h : w.TakesNothing) : ∀ (x : Member) (around : List Bracket),
    w.member (w.contextIn mod pass around) x = w.overTree mod pass around (memberTree x)
  | .field ⟨name, type, attrs⟩, around => by
    rw [member, h.member, pure_bind, memberTree, overTree_leaf]
    rfl
  | .oneof o, around => by
    rw [member, h.member, pure_bind, memberTree, overTree_leaf]
    rfl
  | .enum ⟨name, spaces, attrs, isScoped, underlying, values⟩, around => by
    rw [member, memberTree, ← enum_eq]
    simp only [h.member, pure_bind]
    rfl
  | .struct ⟨name, spaces, attrs, anonymous, var, record, abstract, base, ms⟩, around => by
    rw [member, memberTree, overTree_branch, ← members_eq h ms, contextIn_struct]
    simp only [h.member, pure_bind]
    rfl

theorem members_eq (h : w.TakesNothing) : ∀ (ms : List Member) (around : List Bracket),
    w.members (w.contextIn mod pass around) ms = w.overTrees mod pass around (memberTrees ms)
  | [], around => by
    rw [members, memberTrees, overTrees_nil]
  | x :: xs, around => by
    rw [members, memberTrees, overTrees_cons, member_eq h x, members_eq h xs]

end

theorem struct_eq (h : w.TakesNothing) (s : Struct) :
    w.struct (w.contextIn mod pass around) s = w.overTree mod pass around (structTree s) := by
  cases s
  rw [struct, structTree, overTree_branch, ← members_eq w mod pass h, contextIn_struct]
  rfl

theorem nodes_eq (h : w.TakesNothing) (nodes : List Node) :
    w.nodes (w.contextIn mod pass around) nodes =
      w.overTrees mod pass around (forest nodes) := by
  induction nodes using Normal.nodesInduction generalizing around with
  | nil => rw [Walker.nodes, forest, overTrees_nil]
  | cons d rest hinner hrest =>
    -- no hook takes the declaration over, so its own case of the traversal is left
    have huntaken : w.node (w.contextIn mod pass around) d =
        w.untaken (w.contextIn mod pass around) d := by
      rw [node, h.node, pure_bind]
    rw [nodes_cons, huntaken, hrest]
    cases d with
    | struct s => rw [untaken, forest, overTrees_cons, struct_eq w mod pass around h]
    | enum e => rw [untaken, forest, overTrees_cons, enum_eq]
    | oneof o => rw [untaken, forest, overTrees_cons, overTree_leaf]; rfl
    | service s => rw [untaken, forest, overTrees_cons, overTree_leaf]; rfl
    | space name inner =>
      rw [untaken, forest, overTrees_cons, overTree_branch, ← contextIn_space,
        hinner name inner rfl]
      rfl

theorem passesOver_eq (h : w.TakesNothing) (passes : List Pass) :
    w.passesOver mod passes =
      w.performAll
        (passes.flatMap fun p => w.callsAlong mod p (walkTrees [] (forest mod.nodes))) := by
  induction passes with
  | nil => rw [passesOver, List.flatMap_nil, performAll_nil]
  | cons p passes ih =>
    rw [passesOver, List.flatMap_cons, performAll_append, ih, outermost_eq, nodes_eq w mod p [] h]
    rfl

/-- Where the hooks take nothing over, a traversal makes its calls one after the other. -/
theorem walk_eq (h : w.TakesNothing) : w.walk mod = w.performAll (w.calls mod) := by
  rw [walk, calls, passesOver_eq w mod h, List.cons_append, performAll_cons, performAll_append,
    performAll_cons, performAll_nil]
  simp [outermost_eq, perform, String.append_assoc]

end Schemata.Walker

namespace Schemata.Traversal

/-! ### Recording -/

variable (answer : Call → String)

/-- Writes a call down and answers it. -/
def record (call : Call) : StateM (List Call) String := do
  modify (· ++ [call])
  return answer call

def recorder : Hooks (StateM (List Call)) where
  header mod c := record answer (.header mod c)
  footer mod c := record answer (.footer mod c)
  spaceOpen name c := record answer (.event (.opened (.space name)) c)
  spaceClose name c := record answer (.event (.closed (.space name)) c)
  structOpen s c := record answer (.event (.opened (.struct s)) c)
  structClose s c := record answer (.event (.closed (.struct s)) c)
  field f _ c := record answer (.event (.met (.field f)) c)
  enumOpen e c := record answer (.event (.opened (.enum e)) c)
  enumValue v isLast _ c := record answer (.event (.met (.value v isLast)) c)
  enumClose e c := record answer (.event (.closed (.enum e)) c)
  oneof o c := record answer (.event (.met (.oneof o)) c)
  service s c := record answer (.event (.met (.service s)) c)

theorem perform_recorder (passes : List Pass) (unit : String) (flatSpaces : Bool) (call : Call) :
    (Walker.mk (recorder answer) passes unit flatSpaces).perform call = record answer call := by
  cases call with
  | header mod c => rfl
  | footer mod c => rfl
  | event e c =>
    cases e with
    | opened b => cases b <;> rfl
    | closed b => cases b <;> rfl
    | met l => cases l <;> rfl

theorem run_mapM_record (calls before : List Call) :
    (calls.mapM (record answer)).run before = (calls.map answer, before ++ calls) := by
  induction calls generalizing before with
  | nil =>
    rw [List.append_nil]
    rfl
  | cons call calls ih =>
    rw [List.mapM_cons, StateT.run_bind]
    -- the first call is written down before the others are made
    change ((calls.mapM (record answer) >>= fun texts => pure (answer call :: texts)).run
      (before ++ [call]) : List String × List Call) = _
    rw [bind_pure_comp, StateT.run_map, ih, List.append_assoc]
    rfl

/-- A traversal calls its hooks along the forest of the module, once for each pass, between one
header and one footer. Every bracket is closed behind what was opened inside of it, and the
brackets that are open at a call are those its context is made of. -/
theorem walk_records_forest (answer : Call → String) (passes : List Pass) (unit : String)
    (flatSpaces : Bool) (mod : Module) :
    let w : Walker (StateM (List Call)) := ⟨recorder answer, passes, unit, flatSpaces⟩
    (w.walk mod).run [] = (String.join ((w.calls mod).map answer), w.calls mod) ∧
      Nests [] (walkTrees [] (forest mod.nodes)) [] := by
  intro w
  have htakes : w.TakesNothing := ⟨fun _ _ => rfl, fun _ _ => rfl⟩
  have hperform : w.perform = record answer :=
    funext (perform_recorder answer passes unit flatSpaces)
  refine ⟨?_, nests_walkTrees _ _⟩
  rw [w.walk_eq mod htakes, Walker.performAll, hperform, StateT.run_map, run_mapM_record]
  rfl

end Schemata.Traversal
