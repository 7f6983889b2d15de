import Mathlib
import Schemata.Traversal

/-!
The traversal node by node. A list of nodes is met one after the other, each taken over by the
hooks or left to the traversal, and the texts are joined in that order. Where no node is taken
over, a pass is the emission of pieces, one after the other and depth first: the opening of a
namespace, a node that is none, the closing of a namespace.
-/

namespace Schemata.Walker

variable {m : Type → Type} [Monad m] (w : Walker m) (c : Context)

/-- What the traversal does with a node that the hooks leave to it. -/
def untaken : Node → m String
  | .struct s => w.struct c s
  | .enum e => w.enum c e
  | .oneof o => w.hooks.oneof o c
  | .service s => w.hooks.service s c
  | .space name inner => do
    let opening ← w.hooks.spaceOpen name c
    let body ← w.nodes (w.inside c name) inner
    let closing ← w.hooks.spaceClose name c
    return opening ++ body ++ closing

def node (d : Node) : m String := do
  match ← w.hooks.takeNode d c with
  | some text => return text
  | none => w.untaken c d

/-- A part of the text of a pass, with the context it is written in. -/
inductive Piece where
  | opening (space : String) (c : Context)
  /-- A node other than a namespace. -/
  | whole (n : Node) (c : Context)
  | closing (space : String) (c : Context)

def pieces (w : Walker m) (c : Context) : List Node → List Piece
  | [] => []
  | .space name inner :: rest =>
    .opening name c :: pieces w (w.inside c name) inner ++ .closing name c :: pieces w c rest
  | n :: rest => .whole n c :: pieces w c rest

theorem pieces_eq_map {nodes : List Node} (h : ∀ d ∈ nodes, ∀ name inner, d ≠ .space name inner) :
    w.pieces c nodes = nodes.map (.whole · c) := by
  induction nodes with
  | nil => rw [pieces, List.map_nil]
  | cons d rest ih =>
    have hrest := ih fun e he => h e (List.mem_cons_of_mem _ he)
    cases d with
    | space name inner => exact absurd rfl (h _ List.mem_cons_self name inner)
    | _ => simp [pieces, hrest]

theorem inside_pass (name : String) : (w.inside c name).pass = c.pass := by
  rw [inside]
  cases w.flatSpaces <;> rfl

def emitPiece : Piece → m String
  | .opening space c => w.hooks.spaceOpen space c
  | .whole n c => w.untaken c n
  | .closing space c => w.hooks.spaceClose space c

/-- Pieces are emitted one after the other, and their texts joined. -/
def emitPieces (w : Walker m) : List Piece → m String
  | [] => pure ""
  | p :: ps => do
    let head ← w.emitPiece p
    return head ++ (← emitPieces w ps)

variable [LawfulMonad m]

theorem nodes_cons (d : Node) (rest : List Node) : w.nodes c (d :: rest) = do
      let head ← w.node c d
      return head ++ (← w.nodes c rest) := by
  rw [node, bind_assoc]
  cases d <;>
  · rw [nodes]
    refine bind_congr fun taken => ?_
    cases taken with
    | some text => simp
    | none => simp [untaken]

theorem emitPieces_append (ps qs : List Piece) : w.emitPieces (ps ++ qs) = do
      let front ← w.emitPieces ps
      return front ++ (← w.emitPieces qs) := by
  induction ps with
  | nil => simp only [List.nil_append, emitPieces, pure_bind, String.empty_append, bind_pure]
  | cons p ps ih =>
    simp only [List.cons_append, emitPieces, ih, bind_assoc, pure_bind, String.append_assoc]

/-- Where the hooks take nothing over, a pass over nodes emits their pieces in order. -/
theorem nodes_eq_emitPieces (w : Walker m) {pass : Pass}
    (huntaken : ∀ d c, c.pass = pass → w.hooks.takeNode d c = pure none) :
    ∀ (c : Context) (nodes : List Node), c.pass = pass →
      w.nodes c nodes = w.emitPieces (w.pieces c nodes)
  | c, [], _ => by rw [nodes, pieces, emitPieces]
  | c, d :: rest, hpass => by
    have hrest := nodes_eq_emitPieces w huntaken c rest hpass
    have hnode : w.node c d = w.untaken c d := by
      rw [node, huntaken d c hpass, pure_bind]
    rw [nodes_cons, hnode, hrest]
    cases d with
    | space name inner =>
      have hinner := nodes_eq_emitPieces w huntaken (w.inside c name) inner
        ((w.inside_pass c name).trans hpass)
      simp only [untaken, pieces, List.cons_append, emitPieces, emitPieces_append, emitPiece,
        hinner, bind_assoc, pure_bind, String.append_assoc]
    | _ => simp only [pieces, emitPieces, emitPiece]

end Schemata.Walker
