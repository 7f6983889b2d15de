import Schemata.Emission.Writer
import Schemata.Proofs.Traversal.Pieces

/-!
What is reported while a module is written. Emitting reports so many times under a code when it
adds that many diagnostics of the code, whatever was recorded before. The numbers add up along a
sequence, so that of a whole traversal follows from those of the hooks: the members that a
notation has no form for are reported once each, and all else is silent.
-/

namespace Schemata

variable {m : Member} {n : Nat}

/-! ### Diagnostics of one code -/

namespace Diagnostics

theorem length_withCode_add (ds : Diagnostics) (d : Diagnostic) (code : Code) :
    ((ds.add d).withCode code).length =
      (ds.withCode code).length + if d.code.name = code.name then 1 else 0 := by
  obtain ⟨severity, c, message, target, path⟩ := d
  by_cases h : c.name = code.name <;> cases severity <;>
    simp [add, withCode, toList, h] <;> omega

end Diagnostics

theorem Reported.length_withCode_record {code : Code}
    (hcode : Code.unmappedKind.name ≠ code.name) (target : String) (ds : List Degradation)
    (r : Reported) : ((r.record target ds).diagnostics.withCode code).length =
      (r.diagnostics.withCode code).length := by
  rw [Reported.record]
  induction ds generalizing r with
  | nil => rfl
  | cons d ds ih =>
    rw [List.foldl_cons, ih]
    split
    · rfl
    · rw [Diagnostics.warn, Diagnostics.length_withCode_add, if_neg hcode, Nat.add_zero]

namespace Emission

/-- How often something has been reported under a code. -/
def heard (code : Code) (s : State) : Nat := (s.reported.diagnostics.withCode code).length

/-- Emitting reports `n` times under a code. -/
def Reports (code : Code) (n : Nat) {α : Type} (e : Emit α) : Prop :=
  ∀ s, heard code (StateT.run e s).2 = heard code s + n

/-- Emitting reports nothing under a code. -/
abbrev Silent (code : Code) {α : Type} (e : Emit α) : Prop := Reports code 0 e

variable {code : Code} {α β : Type}

theorem Reports.bind {m : Nat} {e : Emit α} {f : α → Emit β} (he : Reports code m e)
    (hf : ∀ a, Reports code n (f a)) : Reports code (m + n) (e >>= f) := by
  intro s
  have hfirst := he s
  have hthen := hf (StateT.run e s).1 (StateT.run e s).2
  rw [hfirst, Nat.add_assoc] at hthen
  exact hthen

theorem Reports.map {e : Emit α} (he : Reports code n e) (f : α → β) :
    Reports code n (f <$> e) := fun s => he s

theorem Reports.pure (a : α) : Reports code 0 (Pure.pure a : Emit α) := fun _ => rfl

/-- The texts of a head and of what follows, joined. -/
theorem Reports.join {m : Nat} {head rest : Emit String} (hhead : Reports code m head)
    (hrest : Reports code n rest) :
    Reports code (m + n) (do
      let text ← head
      return text ++ (← rest)) :=
  hhead.bind fun _ => hrest.bind fun _ => .pure _

/-- A body between an opening and a closing that report nothing. -/
theorem Reports.between {opening body closing : Emit String} (hopening : Reports code 0 opening)
    (hbody : Reports code n body) (hclosing : Reports code 0 closing) :
    Reports code n (do
      let first ← opening
      let text ← body
      let last ← closing
      return first ++ text ++ last) := by
  have hall := hopening.bind fun first => hbody.bind fun text => hclosing.bind fun last =>
    Reports.pure (first ++ text ++ last)
  rwa [Nat.zero_add] at hall

theorem Silent.bind {e : Emit α} {f : α → Emit β} (he : Silent code e)
    (hf : ∀ a, Silent code (f a)) : Silent code (e >>= f) := Reports.bind he hf

theorem silent_modify {f : State → State} (hf : ∀ s, (f s).reported = s.reported) :
    Silent code (modify f : Emit Unit) := by
  intro s
  exact congrArg (fun r => (Diagnostics.withCode (Reported.diagnostics r) code).length) (hf s)

theorem silent_scan (known : List (String × String)) (text : String) :
    Silent code (scan known text) := by
  refine Silent.bind ?_ fun _ => .pure text
  exact silent_modify fun _ => rfl

theorem silent_addImport (line : String) : Silent code (addImport line) :=
  silent_modify fun _ => rfl

theorem silent_nextNumber : Silent code nextNumber := fun _ => rfl

theorem silent_resetCount : Silent code resetCount := silent_modify fun _ => rfl

theorem silent_get : Silent code (get : Emit State) := fun _ => rfl

/-- How often a report under one code is one under another: once if they are called the same. -/
def share (reported code : Code) : Nat := if reported.name = code.name then 1 else 0

theorem reports_warn (reported : Code) (message target path : String) :
    Reports code (share reported code) (warn reported message target path) := by
  intro s
  exact Diagnostics.length_withCode_add _ _ code

theorem silent_warn {reported : Code} (hcode : reported.name ≠ code.name)
    (message target path : String) : Silent code (warn reported message target path) := by
  have h : Reports code _ _ := reports_warn reported message target path
  rwa [share, if_neg hcode] at h

theorem silent_report (hcode : Code.unmappedKind.name ≠ code.name) (target : String)
    (l : Lowered) : Silent code (report target l) := by
  refine Silent.bind ?_ fun _ => .pure _
  intro s
  exact Reported.length_withCode_record hcode target l.degradations s.reported

theorem Reports.run {e : Emit α} (he : Reports code n e) :
    ((Emission.run e).2.reported.diagnostics.withCode code).length = n := by
  have hall := he {}
  rwa [show heard code {} = 0 from rfl, Nat.zero_add] at hall

theorem silent_forIn {xs : List α} {f : α → β → Emit (ForInStep β)}
    (hf : ∀ x b, Silent code (f x b)) (b : β) : Silent code (forIn xs b f) := by
  induction xs generalizing b with
  | nil => exact .pure b
  | cons x xs ih =>
    rw [List.forIn_cons]
    refine (hf x b).bind fun step => ?_
    cases step with
    | done b => exact .pure b
    | yield b => exact ih b

theorem reports_each {xs : List α} {f : α → Emit PUnit} (hf : ∀ x, Reports code n (f x)) :
    Reports code (xs.length * n)
      (forIn xs PUnit.unit fun x _ => f x >>= fun _ => Pure.pure (ForInStep.yield PUnit.unit)) := by
  induction xs with
  | nil => simpa using Reports.pure PUnit.unit
  | cons x xs ih =>
    rw [List.forIn_cons]
    simp only [bind_assoc, pure_bind]
    have hall := (hf x).bind fun _ => ih
    simpa [Nat.add_mul, Nat.add_comm] using hall

theorem silent_mapM {xs : List α} {f : α → Emit β} (hf : ∀ x, Silent code (f x)) :
    Silent code (xs.mapM f) := by
  induction xs with
  | nil => exact .pure _
  | cons x xs ih =>
    rw [List.mapM_cons]
    exact (hf x).bind fun _ => ih.bind fun _ => .pure _

/-! ### What a notation leaves out -/

mutual

/-- The members of a node, itself when it is a oneof, that a notation does not keep. -/
def leftOutOf (keep : Member → Bool) : Node → List Member
  | .struct s => s.members.filter (!keep ·)
  | .oneof o => [.oneof o].filter (!keep ·)
  | .space _ inner => leftOut keep inner
  | .enum _ | .service _ => []

/-- The members that a notation does not keep, in a list of nodes and its namespaces. -/
def leftOut (keep : Member → Bool) : List Node → List Member
  | [] => []
  | d :: rest => leftOutOf keep d ++ leftOut keep rest

end

theorem leftOut_eq_flatMap (keep : Member → Bool) (nodes : List Node) :
    leftOut keep nodes = nodes.flatMap (leftOutOf keep) := by
  induction nodes with
  | nil => rfl
  | cons d rest ih => rw [leftOut, ih, List.flatMap_cons]

/-! ### Traversals -/

theorem isSlot_of_isField (h : isField m = true) : isSlot m = true := by
  cases m with
  | field f => rfl
  | _ => cases h

/-- Hooks that keep some members and report the others, and that are silent otherwise. -/
structure KeepingHooks (code : Code) (keep : Member → Bool) (h : Hooks Emit) : Prop where
  /-- Only what has no members of its own is kept. -/
  slots : ∀ m, keep m = true → isSlot m = true
  takeMember : ∃ what target, h.takeMember = dropMembers keep what target
  oneof : ∀ o c, Reports code
    (([Member.oneof o].filter (!keep ·)).length * share .unsupportedDeclaration code)
      (h.oneof o c)
  field : ∀ f type c, Silent code (h.field f type c)
  enumOpen : ∀ e c, Silent code (h.enumOpen e c)
  enumValue : ∀ v isLast type c, Silent code (h.enumValue v isLast type c)
  enumClose : ∀ e c, Silent code (h.enumClose e c)
  service : ∀ s c, Silent code (h.service s c)
  frame : ∀ m c, Silent code (h.header m c) ∧ Silent code (h.footer m c)
  space : ∀ name c, Silent code (h.spaceOpen name c) ∧ Silent code (h.spaceClose name c)
  braces : ∀ s c, Silent code (h.structOpen s c) ∧ Silent code (h.structClose s c)
  takeNode : ∀ n c, Silent code (h.takeNode n c)
  /-- In the normal pass only enums are taken over. -/
  untaken : ∀ n c, c.pass = .normal → (∀ e, n ≠ .enum e) → h.takeNode n c = Pure.pure none

section

variable {keep : Member → Bool} {w : Walker Emit}

/-- Whether a hook takes something over or leaves it to `other`, nothing is reported. -/
theorem silent_taken {taken : Emit (Option String)} {other : Emit String}
    (htaken : Silent code taken) (hother : Silent code other) :
    Silent code (taken >>= fun
      | some text => Pure.pure text
      | none => other) := by
  refine htaken.bind fun result => ?_
  cases result with
  | some text => exact .pure text
  | none => exact hother

/-- A member that the hooks leave out is reported and gives no text. -/
theorem member_eq_warn {what target : String} (c : Context)
    (htake : w.hooks.takeMember = dropMembers keep what target) (hkeep : keep m = false) :
    w.member c m = do
      warn .unsupportedDeclaration ("nested " ++ m.name ++ " " ++ what) target (parentName c)
      return "" := by
  have htaken : w.hooks.takeMember m c = do
      warn .unsupportedDeclaration ("nested " ++ m.name ++ " " ++ what) target (parentName c)
      return some "" := by
    rw [htake, dropMembers, hkeep]
    rfl
  cases m with
  | field f => cases f; simp only [Walker.member, htaken, bind_assoc, pure_bind]
  | oneof o => simp [Walker.member, htaken]
  | enum e => cases e; simp only [Walker.member, htaken, bind_assoc, pure_bind]
  | struct s => cases s; simp only [Walker.member, htaken, bind_assoc, pure_bind]

namespace KeepingHooks

variable (h : KeepingHooks code keep w.hooks)

include h

theorem member_of_dropped (c : Context) (hkeep : keep m = false) :
    Reports code (share .unsupportedDeclaration code) (w.member c m) := by
  obtain ⟨what, target, htake⟩ := h.takeMember
  rw [member_eq_warn c htake hkeep]
  exact (reports_warn .unsupportedDeclaration _ _ _).bind fun _ => .pure _

theorem member_of_kept (c : Context) (hkeep : keep m = true) : Silent code (w.member c m) := by
  obtain ⟨what, target, htake⟩ := h.takeMember
  have htaken : w.hooks.takeMember m c = Pure.pure none := by
    rw [htake, dropMembers, if_pos hkeep]
  have hslot := h.slots m hkeep
  cases m with
  | field f =>
    cases f
    simp only [Walker.member, htaken, pure_bind]
    exact h.field _ _ c
  | oneof o =>
    simp only [Walker.member, htaken, pure_bind]
    have honeof := h.oneof o c
    simpa [hkeep] using honeof
  | enum e => cases hslot
  | struct s => cases hslot

theorem members (c : Context) (ms : List Member) : Reports code
    ((ms.filter (!keep ·)).length * share .unsupportedDeclaration code) (w.members c ms) := by
  induction ms with
  | nil =>
    rw [Walker.members]
    simpa using Reports.pure ""
  | cons m ms ih =>
    rw [Walker.members]
    cases hkeep : keep m with
    | true =>
      have hall := Reports.join (h.member_of_kept c hkeep) ih
      simpa [hkeep] using hall
    | false =>
      have hall := Reports.join (h.member_of_dropped c hkeep) ih
      simpa [hkeep, Nat.add_mul, Nat.add_comm] using hall

theorem struct (c : Context) (s : Struct) :
    Reports code ((s.members.filter (!keep ·)).length * share .unsupportedDeclaration code)
      (w.struct c s) := by
  cases s
  rw [Walker.struct]
  exact .between (h.braces _ c).1 (h.members _ _) (h.braces _ c).2

theorem enumValues (c : Context) : ∀ vs : List EnumValue, Silent code (w.enumValues c vs)
  | [] => by
    rw [Walker.enumValues]
    exact .pure _
  | v :: vs => by
    cases v
    rw [Walker.enumValues]
    exact Reports.join (h.enumValue _ _ _ c) (enumValues c vs)

theorem enum (c : Context) (e : Enum) : Silent code (w.enum c e) :=
  .between (h.enumOpen e c) (h.enumValues _ e.values) (h.enumClose e c)

/-- The normal pass reports each member that is left out once. -/
theorem nodes : ∀ (c : Context) (nodes : List Node), c.pass = .normal →
      Reports code ((leftOut keep nodes).length * share .unsupportedDeclaration code)
        (w.nodes c nodes)
  | c, [], _ => by
    rw [Walker.nodes]
    simpa [leftOut] using Reports.pure ""
  | c, d :: rest, hpass => by
    have hrest := nodes c rest hpass
    have hnode : Reports code
        ((leftOutOf keep d).length * share .unsupportedDeclaration code) (w.node c d) := by
      rw [Walker.node]
      cases d with
      | struct s =>
        rw [h.untaken _ c hpass fun _ => Node.noConfusion, pure_bind]
        exact h.struct c s
      | oneof o =>
        rw [h.untaken _ c hpass fun _ => Node.noConfusion, pure_bind]
        exact h.oneof o c
      | enum e =>
        rw [leftOutOf, List.length_nil, Nat.zero_mul]
        exact silent_taken (h.takeNode _ c) (h.enum c e)
      | service s =>
        rw [leftOutOf, List.length_nil, Nat.zero_mul]
        exact silent_taken (h.takeNode _ c) (h.service s c)
      | space name inner =>
        have hinner := nodes (w.inside c name) inner (by rw [Walker.inside_pass, hpass])
        rw [h.untaken _ c hpass fun _ => Node.noConfusion, pure_bind]
        exact .between (h.space name c).1 hinner (h.space name c).2
    rw [Walker.nodes_cons, leftOut, List.length_append, Nat.add_mul]
    exact Reports.join hnode hrest

theorem normalPass (m : Module) :
    Reports code ((leftOut keep m.nodes).length * share .unsupportedDeclaration code)
      (w.passesOver m [.normal]) :=
  Reports.join (h.nodes _ m.nodes rfl) (.pure "")

theorem walk {m : Module}
    (hbody : Reports code n (w.passesOver m w.passes)) : Reports code n (w.walk m) :=
  .between (h.frame m _).1 hbody (h.frame m _).2

end KeepingHooks

end

end Emission

end Schemata
