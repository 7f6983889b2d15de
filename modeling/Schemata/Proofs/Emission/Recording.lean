import Schemata.Proofs.Emission.Identifiers
import Schemata.Proofs.Emission.Reporting
import Schemata.Proofs.Normal.Declarations

/-!
Import lines of traversals. While a module is written, import lines are recorded as texts are read
for their identifiers, and some are added by themselves. `Records` says which sources have been
recorded when an emission is over; it follows the traversal, so that a writer only has to tell the
sources of each piece of a module.
-/

namespace Schemata

open Schemata.Normal List

variable {sources : List Source}

namespace Emission

/-- Where import lines come from. -/
inductive Source where
  /-- A line that is added by itself. -/
  | added (line : String)
  /-- The text of a type. -/
  | name (type : TypeExpr)
  /-- The default value of a type. -/
  | default (type : TypeExpr)

def Source.lines (known : List (String × String)) (l : Lowerer) : Source → List String
  | .added line => [line]
  | .name type => importsOf known (l.typeName type).text
  | .default type => importsOf known (l.defaultValue type).text

theorem mem_used_add {im : Imports} {line other : String} :
    line ∈ (im.add other).used ↔ line ∈ im.used ∨ line = other := by
  rw [Imports.add]
  split
  case isTrue h =>
    refine (or_iff_left_of_imp ?_).symm
    rintro rfl
    simpa using h
  case isFalse h => simp

theorem mem_used_scan {im : Imports} {known : List (String × String)} {text line : String} :
    line ∈ (im.scan known text).used ↔ line ∈ im.used ∨ line ∈ importsOf known text := by
  rw [Imports.scan]
  generalize importsOf known text = lines
  induction lines generalizing im with
  | nil => simp
  | cons other lines ih => rw [foldl_cons, ih, mem_used_add, mem_cons, or_assoc]

section

variable (known : List (String × String)) (l : Lowerer)

/-- The import lines that an emission adds are those of the sources. -/
def Records {α : Type} (sources : List Source) (e : Emit α) : Prop :=
  ∀ s line, line ∈ (StateT.run e s).2.imports.used ↔
    line ∈ s.imports.used ∨ line ∈ sources.flatMap (Source.lines known l)

end

variable {known : List (String × String)} {l : Lowerer} {α β : Type}

theorem Records.bind {more : List Source} {e : Emit α} {f : α → Emit β}
    (he : Records known l sources e) (hf : ∀ a, Records known l more (f a)) :
    Records known l (sources ++ more) (e >>= f) := by
  intro s line
  have hthen := hf (StateT.run e s).1 (StateT.run e s).2 line
  rw [he s line] at hthen
  rw [flatMap_append, mem_append, ← or_assoc]
  exact hthen

/-- Nothing is recorded. -/
abbrev Idle (known : List (String × String)) (l : Lowerer) {α : Type} (e : Emit α) : Prop :=
  Records known l [] e

theorem idle_of_imports {e : Emit α} (h : ∀ s, (StateT.run e s).2.imports = s.imports) :
    Idle known l e := by
  intro s line
  rw [h]
  simp

theorem Records.pure (a : α) : Idle known l (Pure.pure a : Emit α) := idle_of_imports fun _ => rfl

theorem Records.then {e : Emit α} {f : α → Emit β} (he : Records known l sources e)
    (hf : ∀ a, Idle known l (f a)) : Records known l sources (e >>= f) := by
  simpa using he.bind hf

theorem Records.map {e : Emit α} {f : α → β} (he : Records known l sources e) :
    Records known l sources (f <$> e) := he

theorem Records.after {e : Emit α} {f : α → Emit β} (he : Idle known l e)
    (hf : ∀ a, Records known l sources (f a)) : Records known l sources (e >>= f) := by
  simpa using he.bind hf

theorem idle_warn (code : Code) (message target path : String) :
    Idle known l (warn code message target path) := idle_of_imports fun _ => rfl

theorem idle_resetCount : Idle known l resetCount := idle_of_imports fun _ => rfl

theorem idle_nextNumber : Idle known l nextNumber := idle_of_imports fun _ => rfl

theorem idle_get : Idle known l (get : Emit State) := idle_of_imports fun _ => rfl

theorem idle_each {xs : List α} {f : α → Emit PUnit} (hf : ∀ x, Idle known l (f x)) :
    Idle known l
      (forIn xs PUnit.unit fun x _ => f x >>= fun _ => Pure.pure (ForInStep.yield PUnit.unit)) := by
  induction xs with
  | nil => simpa using Records.pure PUnit.unit
  | cons x xs ih =>
    rw [forIn_cons]
    simp only [bind_assoc, pure_bind]
    exact (hf x).then fun _ => ih

theorem records_addImport (line : String) : Records known l [.added line] (addImport line) := by
  intro s other
  rw [flatMap_singleton, Source.lines, mem_singleton]
  exact mem_used_add

theorem records_name (target : String) (type : TypeExpr) :
    Records known l [.name type] (report target (l.typeName type) >>= scan known) := by
  intro s line
  rw [flatMap_singleton]
  exact mem_used_scan

theorem records_default (target : String) (type : TypeExpr) :
    Records known l [.default type] (report target (l.defaultValue type) >>= scan known) := by
  intro s line
  rw [flatMap_singleton]
  exact mem_used_scan

/-- One text after the other. -/
theorem Records.join {more : List Source} {head rest : Emit String}
    (hhead : Records known l sources head) (hrest : Records known l more rest) :
    Records known l (sources ++ more) (do
      let text ← head
      return text ++ (← rest)) :=
  hhead.bind fun _ => hrest.then fun _ => .pure _

theorem Records.between {first middle : List Source} {opening body closing : Emit String}
    (hopening : Records known l first opening) (hbody : Records known l middle body)
    (hclosing : Idle known l closing) :
    Records known l (first ++ middle) (do
      let first ← opening
      let text ← body
      let last ← closing
      return first ++ text ++ last) :=
  hopening.bind fun _ => hbody.then fun _ => hclosing.then fun _ => .pure _

/-! ### Traversals -/

structure Sources where
  struct : List Source := []
  field : TypeExpr → List Source
  oneof : List TypeExpr → List Source := fun _ => []
  enum : Enum → List Source := fun _ => []
  /-- The sources of a value, by what its enum carries. -/
  value : Enum → TypeExpr → List Source := fun _ _ => []
  service : List Source := []

namespace Sources

/-- A field or a oneof; other members are left out. -/
def member (p : Sources) : Member → List Source
  | .field f => p.field f.type
  | .oneof o => p.oneof (o.alternatives.map Alternative.type)
  | .enum _ | .struct _ => []

theorem member_of_not_isSlot {p : Sources} {m : Member} (h : isSlot m = false) :
    p.member m = [] := by
  cases m with
  | field f => cases h
  | oneof o => cases h
  | _ => rfl

def declaration (p : Sources) : Node → List Source
  | .struct s => p.struct ++ s.members.flatMap p.member
  | .enum e => p.enum e ++ e.values.flatMap fun v => p.value e v.payload
  | .oneof o => p.oneof (o.alternatives.map Alternative.type)
  | .service _ => p.service
  | .space _ _ => []

/-- The sources of a list of nodes, those of namespaces in their place. -/
def nodes (p : Sources) (ds : List Node) : List Source := (declarations ds).flatMap p.declaration

end Sources

section

variable (known : List (String × String)) (l : Lowerer)

/-- Hooks that record the sources of each piece, and that take nothing over in the normal pass
but members that they leave out. -/
structure RecordingHooks (p : Sources) (h : Hooks Emit) : Prop where
  takeMember : ∃ keep what target, h.takeMember = dropMembers keep what target ∧
    (∀ m, keep m = false → p.member m = []) ∧ ∀ m, keep m = true → isSlot m = true
  field : ∀ f type c, Records known l (p.field f.type) (h.field f type c)
  oneof : ∀ o c, Records known l (p.oneof (o.alternatives.map Alternative.type)) (h.oneof o c)
  enumOpen : ∀ e c, Records known l (p.enum e) (h.enumOpen e c)
  enumValue : ∀ e v isLast type c, c.owner = some e →
    Records known l (p.value e v.payload) (h.enumValue v isLast type c)
  enumClose : ∀ e c, Idle known l (h.enumClose e c)
  service : ∀ s c, Records known l p.service (h.service s c)
  braces : ∀ s c, Records known l p.struct (h.structOpen s c) ∧ Idle known l (h.structClose s c)
  frame : ∀ m c, Idle known l (h.header m c) ∧ Idle known l (h.footer m c)
  space : ∀ name c, Idle known l (h.spaceOpen name c) ∧ Idle known l (h.spaceClose name c)
  untaken : ∀ n c, c.pass = .normal → h.takeNode n c = Pure.pure none

end

section

variable {p : Sources} {w : Walker Emit}

/-- Nodes one after the other; what a namespace records is what its nodes do. -/
theorem records_nodes {pass : Pass} {sources : Node → List Source}
    (hnode : ∀ d c, c.pass = pass →
      (∀ name inner, d = .space name inner →
        Records known l ((declarations inner).flatMap sources) (w.nodes (w.inside c name) inner)) →
      Records known l ((declarationsOf d).flatMap sources) (w.node c d)) (nodes : List Node) :
    ∀ c, c.pass = pass →
      Records known l ((declarations nodes).flatMap sources) (w.nodes c nodes) := by
  induction nodes using nodesInduction with
  | nil =>
    intro c _
    rw [Walker.nodes]
    exact .pure _
  | cons d rest hinner hrest =>
    intro c hc
    have hd := hnode d c hc fun name inner hspace =>
      hinner name inner hspace _ (by rw [Walker.inside_pass, hc])
    rw [Walker.nodes_cons, declarations, flatMap_append]
    exact hd.join (hrest c hc)

namespace RecordingHooks

variable (h : RecordingHooks known l p w.hooks)

include h

theorem member (c : Context) (m : Member) : Records known l (p.member m) (w.member c m) := by
  obtain ⟨keep, what, target, htake, hdropped, hslots⟩ := h.takeMember
  cases hkeep : keep m with
  | true =>
    have htaken : w.hooks.takeMember m c = Pure.pure none := by
      rw [htake, dropMembers, if_pos hkeep]
    have hslot := hslots m hkeep
    cases m with
    | field f =>
      cases f
      simp only [Walker.member, htaken, pure_bind]
      exact h.field _ _ c
    | oneof o =>
      simp only [Walker.member, htaken, pure_bind]
      exact h.oneof o c
    | enum e => cases hslot
    | struct s => cases hslot
  | false =>
    rw [hdropped m hkeep, member_eq_warn c htake hkeep]
    exact (idle_warn _ _ _ _).then fun _ => .pure _

theorem members (c : Context) (ms : List Member) :
    Records known l (ms.flatMap p.member) (w.members c ms) := by
  induction ms with
  | nil =>
    rw [Walker.members]
    exact .pure _
  | cons m ms ih =>
    rw [Walker.members, flatMap_cons]
    exact (h.member c m).join ih

theorem enumValues {e : Enum} {c : Context} (hc : c.owner = some e) (vs : List EnumValue) :
    Records known l (vs.flatMap fun v => p.value e v.payload) (w.enumValues c vs) := by
  induction vs with
  | nil =>
    rw [Walker.enumValues]
    exact .pure _
  | cons v vs ih =>
    have hvalue := h.enumValue e v vs.isEmpty (w.type v.payload) c hc
    cases v
    rw [Walker.enumValues, flatMap_cons]
    exact hvalue.join ih

theorem declaration {d : Node} (hspace : ∀ name inner, d ≠ .space name inner) (c : Context) :
    Records known l (p.declaration d) (w.untaken c d) := by
  cases d with
  | struct s =>
    have hmembers := h.members { c.nest with parent := some s } s.members
    have hstruct := (h.braces s c).1.between hmembers (h.braces s c).2
    cases s
    rw [Walker.untaken, Walker.struct]
    exact hstruct
  | enum e => exact (h.enumOpen e c).between (h.enumValues rfl e.values) (h.enumClose e c)
  | oneof o => exact h.oneof o c
  | service s => exact h.service s c
  | space name inner => exact absurd rfl (hspace name inner)

theorem nodes (nodes : List Node) (c : Context) (hc : c.pass = .normal) :
    Records known l (p.nodes nodes) (w.nodes c nodes) := by
  refine records_nodes (fun d c hc hinner => ?_) nodes c hc
  rw [Walker.node, h.untaken d c hc, pure_bind]
  cases d with
  | space name inner =>
    have hbody := hinner name inner rfl
    rw [declarationsOf]
    exact (h.space name c).1.between hbody (h.space name c).2
  | _ =>
    rw [declarationsOf, flatMap_singleton]
    exact h.declaration (by simp) c

theorem normalPass (m : Module) : Records known l (p.nodes m.nodes) (w.passesOver m [.normal]) :=
  (h.nodes m.nodes (w.outermost m .normal) rfl).then fun _ => .pure _

theorem walk {m : Module} (hbody : Records known l sources (w.passesOver m w.passes)) :
    Records known l sources (w.walk m) :=
  (h.frame m _).1.between hbody (h.frame m _).2

end RecordingHooks

end

end Emission

end Schemata
