import Schemata.Proofs.Emission.Reporting
import Schemata.Writer.Cpp
import Schemata.Writer.Go
import Schemata.Writer.Protobuf
import Schemata.Writer.Python
import Schemata.Writer.Rust
import Schemata.Writer.TypeScript

/-!
What the writers report about members they keep: kinds that have no row and attributes that have
no place, and nothing else. Go and Rust keep fields only; the others have a form for oneofs, too.
-/

namespace Schemata

open Emission

namespace Writer

/-- Codes that writing does not use for anything it keeps. -/
structure IsOther (code : Code) : Prop where
  unmapped : Code.unmappedKind.name ≠ code.name
  dropped : Code.droppedAttribute.name ≠ code.name
  layout : Code.goFormat.name ≠ code.name

theorem isOther_unsupported : IsOther .unsupportedDeclaration := by
  constructor <;> decide

theorem isOther_cycle : IsOther .dependencyCycle := by
  constructor <;> decide

variable {code : Code} (hcode : IsOther code) (t : Target)

include hcode

/-- The text of a lowered type or default, with the imports it calls for. -/
theorem silent_lowered (known : List (String × String)) (target : String) (l : Lowered) :
    Silent code (report target l >>= scan known) :=
  (silent_report hcode.unmapped target l).bind fun _ => silent_scan known _

omit hcode in
/-- A oneof that the notation has no form for. -/
theorem reports_dropped {o : Oneof} (message target path : String) :
    Reports code (([Member.oneof o].filter (!isField ·)).length * share .unsupportedDeclaration code)
      (warn .unsupportedDeclaration message target path >>= fun _ => pure "") := by
  have hwarn : Reports code _ _ := reports_warn .unsupportedDeclaration message target path
  simpa [isField] using hwarn.bind fun _ => Reports.pure ""

omit hcode in
/-- A oneof that the notation has a form for. -/
theorem silent_kept {o : Oneof} {e : Emit String} (he : Silent code e) :
    Reports code (([Member.oneof o].filter (!isSlot ·)).length * share .unsupportedDeclaration code)
      e := by
  simpa [isSlot] using he

/-! ### Go -/

theorem Go.keepingHooks : KeepingHooks code isField (Go.hooks t) where
  slots m h := isSlot_of_isField h
  takeMember := ⟨_, _, rfl⟩
  field f type c := by
    refine (silent_forIn ?_ _).bind fun _ => ?_
    · intro name _
      exact (silent_warn hcode.dropped _ _ _).bind fun _ => .pure _
    · exact (silent_lowered hcode _ _ _).bind fun _ => .pure _
  oneof o c := reports_dropped _ _ _
  enumOpen e c := by
    simp only [Go.hooks]
    split <;> exact .pure _
  enumValue v isLast type c := by
    simp only [Go.hooks]
    split
    · exact .pure _
    · split
      · exact .pure _
      · exact (silent_lowered hcode _ _ _).bind fun _ => .pure _
  enumClose e c := by
    simp only [Go.hooks]
    split
    · exact .pure _
    · exact (silent_scan _ _).bind fun _ => .pure _
  service s c := (silent_scan _ _).bind fun _ => .pure _
  frame _ _ := ⟨.pure _, .pure _⟩
  space _ _ := ⟨.pure _, .pure _⟩
  braces _ _ := ⟨.pure _, .pure _⟩
  takeNode _ _ := .pure _
  untaken _ _ _ _ := rfl

/-! ### Rust -/

theorem Rust.keepingHooks : KeepingHooks code isField (Rust.hooks t) where
  slots m h := isSlot_of_isField h
  takeMember := ⟨_, _, rfl⟩
  field f type c := (silent_lowered hcode _ _ _).bind fun _ => .pure _
  oneof o c := reports_dropped _ _ _
  enumOpen e c := by
    simp only [Rust.hooks]
    split <;> exact .pure _
  enumValue v isLast type c := by
    simp only [Rust.hooks]
    split
    · exact .pure _
    · split
      · exact .pure _
      · exact (silent_lowered hcode _ _ _).bind fun _ => .pure _
  enumClose e c := .pure _
  service s c := .pure _
  frame _ _ := ⟨.pure _, .pure _⟩
  space _ _ := ⟨.pure _, .pure _⟩
  braces _ _ := ⟨.pure _, .pure _⟩
  takeNode _ _ := .pure _
  untaken _ _ _ _ := rfl

/-! ### C++ -/

namespace Cpp

theorem keepingHooks : KeepingHooks code isSlot (hooks t) where
  slots m h := h
  takeMember := ⟨_, _, rfl⟩
  field f type c :=
    (silent_lowered hcode _ _ _).bind fun _ =>
      (silent_report hcode.unmapped _ _).bind fun _ => (silent_scan _ _).bind fun _ => .pure _
  oneof o c := by
    refine silent_kept ?_
    refine (silent_lowered hcode _ _ _).bind fun _ => ?_
    split <;> exact .pure _
  enumOpen e c := by
    simp only [hooks]
    split
    · exact (silent_lowered hcode _ _ _).bind fun _ => .pure _
    · split
      · split
        · exact ((silent_lowered hcode _ _ _).map _).bind fun _ => .pure _
        · exact .pure _
      · exact .pure _
  enumValue v isLast type c := by
    simp only [hooks]
    split <;> exact .pure _
  enumClose e c := by
    simp only [hooks]
    split <;> exact .pure _
  service s c := .pure _
  frame _ _ := ⟨.pure _, .pure _⟩
  space _ _ := ⟨.pure _, .pure _⟩
  braces _ _ := ⟨.pure _, .pure _⟩
  takeNode _ _ := .pure _
  untaken n c hpass _ := by
    have hdeclaration : declaration t n c = none := by simp [declaration, hpass]
    simp only [hooks, hdeclaration]

omit hcode in
/-- The first pass declares structs and goes into namespaces, and that is all. -/
theorem silent_declare : ∀ (c : Context) (nodes : List Node),
    c.pass = .declare → Silent code ((walker t).nodes c nodes)
  | c, [], _ => by
    rw [Walker.nodes]
    exact .pure _
  | c, d :: rest, hpass => by
    have hrest := silent_declare c rest hpass
    have hnode : Silent code ((walker t).node c d) := by
      cases d with
      | space name inner =>
        have hinner := silent_declare ((walker t).inside c name) inner
          (by rw [Walker.inside_pass, hpass])
        exact silent_taken (.pure _) (.between (.pure _) hinner (.pure _))
      | _ =>
        simp only [Walker.node, walker, hooks, declaration, hpass, ne_eq,
          not_true, if_false, pure_bind]
        exact .pure _
    rw [Walker.nodes_cons]
    exact Reports.join hnode hrest

end Cpp

/-! ### Python -/

namespace Python

theorem silent_defaultText (enums : List Enum) (type : TypeExpr) :
    Silent code (defaultText t enums type) := by
  rw [defaultText]
  split
  · exact .pure _
  · exact silent_lowered hcode _ _ _

theorem keepingHooks (enums : List Enum) : KeepingHooks code isSlot (hooks t enums) where
  slots m h := h
  takeMember := ⟨_, _, rfl⟩
  braces s c :=
    ⟨silent_resetCount.bind fun _ => (silent_addImport _).bind fun _ => .pure _,
      silent_get.bind fun _ => .pure _⟩
  field f type c :=
    (silent_nextNumber.map _).bind fun _ => (silent_lowered hcode _ _ _).bind fun _ =>
      (silent_defaultText hcode t enums f.type).bind fun _ => .pure _
  oneof o c := by
    refine silent_kept ?_
    refine (silent_lowered hcode _ _ _).bind fun _ => ?_
    split
    · exact .pure _
    · exact (silent_nextNumber.map _).bind fun _ => .pure _
  enumOpen e c := by
    simp only [hooks]
    split
    · exact (silent_lowered hcode _ _ _).bind fun _ => .pure _
    · exact (silent_addImport _).bind fun _ => .pure _
  enumValue v isLast type c := by
    simp only [hooks]
    split <;> exact .pure _
  enumClose e c := .pure _
  service s c := (silent_addImport _).bind fun _ => .pure _
  frame _ _ := ⟨.pure _, .pure _⟩
  space _ _ := ⟨.pure _, .pure _⟩
  takeNode _ _ := .pure _
  untaken _ _ _ _ := rfl

end Python

/-! ### TypeScript -/

namespace TypeScript

theorem silent_typeText (type : TypeExpr) : Silent code (typeText t type) :=
  silent_report hcode.unmapped _ _

theorem silent_typeOrNull (type : TypeExpr) : Silent code (typeOrNull t type) := by
  cases type with
  | missing => exact .pure _
  | _ => exact silent_typeText hcode t _

theorem silent_unionOf (alts : List Alternative) : Silent code (unionOf t alts) := by
  induction alts with
  | nil => exact .pure _
  | cons a alts ih =>
    exact (silent_typeOrNull hcode t a.type).bind fun _ => ih.bind fun _ => .pure _

theorem keepingHooks : KeepingHooks code isSlot (hooks t) where
  slots m h := h
  takeMember := ⟨_, _, rfl⟩
  field f type c := (silent_typeText hcode t f.type).bind fun _ => .pure _
  oneof o c := by
    refine silent_kept ?_
    refine (silent_unionOf hcode t _).bind fun _ => ?_
    split <;> exact .pure _
  enumOpen e c := by
    simp only [hooks]
    split
    · exact (silent_mapM fun v : EnumValue => silent_typeOrNull hcode t v.payload).bind
        fun _ => .pure _
    · exact .pure _
  enumValue v isLast type c := by
    simp only [hooks]
    split <;> exact .pure _
  enumClose e c := by
    simp only [hooks]
    split <;> exact .pure _
  service s c := .pure _
  frame _ _ := ⟨.pure _, .pure _⟩
  space _ _ := ⟨.pure _, .pure _⟩
  braces _ _ := ⟨.pure _, .pure _⟩
  takeNode _ _ := .pure _
  untaken _ _ _ _ := rfl

end TypeScript

/-! ### Protocol buffers -/

namespace Protobuf

theorem silent_degrade (type : TypeExpr) (path : String) : Silent code (degrade type path) :=
  (silent_warn hcode.unmapped _ _ _).bind fun _ => .pure _

theorem silent_fieldType (type : TypeExpr) (path : String) :
    Silent code (fieldType t type path) := by
  unfold fieldType
  split
  · exact silent_degrade hcode type path
  · split <;> exact silent_lowered hcode _ _ _

theorem silent_alternativeType (type : TypeExpr) (path : String) :
    Silent code (alternativeType t type path) := by
  have hsingle (type : TypeExpr) : Silent code
      (if isElement type then typeText t type
        else degrade type path) := by
    split
    · exact silent_lowered hcode _ _ _
    · exact silent_degrade hcode type path
  unfold alternativeType
  split
  · exact silent_scan _ _
  · exact hsingle _
  · exact hsingle _

theorem silent_alternatives (indent path : String)
    (alts : List Alternative) : Silent code (alternatives t indent path alts) := by
  induction alts with
  | nil => exact .pure _
  | cons a alts ih =>
    exact (silent_alternativeType hcode t a.type _).bind fun _ =>
      silent_nextNumber.bind fun _ => ih.bind fun _ => .pure _

theorem silent_oneofBlock (name : String) (alts : List Alternative)
    (path : String) (c : Context) : Silent code (oneofBlock t name alts path c) :=
  (silent_alternatives hcode t _ path alts).bind fun _ => .pure _

theorem silent_oneofMessage (name inner : String)
    (alts : List Alternative) (c : Context) : Silent code (oneofMessage t name inner alts c) :=
  silent_resetCount.bind fun _ =>
    (silent_oneofBlock hcode t inner alts name c.nest).bind fun _ => .pure _

omit hcode in
theorem silent_methodType (name : String) : Silent code (methodType t name) := by
  rw [methodType]
  split
  · exact silent_scan _ _
  · exact .pure _

omit hcode in
theorem silent_methodLines (indent : String) (ms : List Method) :
    Silent code (methodLines t indent ms) := by
  induction ms with
  | nil => exact .pure _
  | cons m ms ih =>
    exact (silent_methodType t m.request).bind fun _ =>
      (silent_methodType t m.response).bind fun _ => ih.bind fun _ => .pure _

theorem keepingHooks : KeepingHooks code isSlot (hooks t) where
  slots m h := h
  takeMember := ⟨_, _, rfl⟩
  braces s c := by
    refine ⟨silent_resetCount.bind fun _ => ?_, .pure _⟩
    split
    · exact .pure _
    · exact silent_nextNumber.bind fun _ => .pure _
  field f type c := by
    simp only [hooks]
    split
    · exact silent_oneofBlock hcode t _ _ _ c
    · exact (silent_fieldType hcode t _ _).bind fun _ =>
        silent_nextNumber.bind fun _ => .pure _
  oneof o c := by
    refine silent_kept ?_
    simp only [hooks]
    split
    · exact silent_oneofBlock hcode t _ _ _ c
    · exact silent_oneofMessage hcode t _ _ _ c
  takeNode n c := by
    simp only [hooks]
    split
    · split
      · exact (silent_oneofMessage hcode t _ _ _ c).bind fun _ => .pure _
      · exact .pure _
    · exact .pure _
  enumOpen e c := .pure _
  enumValue v isLast type c := .pure _
  enumClose e c := .pure _
  service s c := (silent_methodLines t _ s.methods).bind fun _ => .pure _
  frame _ _ := ⟨.pure _, .pure _⟩
  space _ _ := ⟨.pure _, .pure _⟩
  untaken n c _ henum := by
    cases n with
    | enum e => exact absurd rfl (henum e)
    | _ => rfl

end Protobuf

/-! ### Whole texts

Every writer reports what it leaves out, once each. The writers that order declarations report
what they cannot order as well. -/

/-- How often a writer that keeps some members reports about a list of nodes. -/
def dropReports (code : Code) (keep : Member → Bool) (nodes : List Node) : Nat :=
  (leftOut keep nodes).length * share .unsupportedDeclaration code

variable (m : Module)

theorem go_reports :
    (((Writer.go t).write m).2.withCode code).length = dropReports code isField m.nodes := by
  have h : KeepingHooks code isField (Go.walker t).hooks := Go.keepingHooks hcode t
  have hwalk := (h.walk (h.normalPass m)).run
  rw [dropReports, ← hwalk]
  simp only [Writer.go, Go.write]
  split
  · rfl
  · rw [Diagnostics.length_withCode_add, if_neg hcode.layout]
    rfl

theorem rust_reports :
    (((Writer.rust t).write m).2.withCode code).length = dropReports code isField m.nodes := by
  have h : KeepingHooks code isField (Rust.walker t).hooks := Rust.keepingHooks hcode t
  exact (h.walk (h.normalPass m)).run

theorem typeScript_reports :
    (((Writer.typeScript t).write m).2.withCode code).length = dropReports code isSlot m.nodes := by
  have h : KeepingHooks code isSlot (TypeScript.walker t).hooks := TypeScript.keepingHooks hcode t
  exact (h.walk (h.normalPass m)).run

theorem protobuf_reports :
    (((Writer.protobuf t).write m).2.withCode code).length = dropReports code isSlot m.nodes := by
  have h : KeepingHooks code isSlot (Protobuf.walker t).hooks := Protobuf.keepingHooks hcode t
  exact (h.walk (h.normalPass m)).run

theorem cpp_reports :
    (((Writer.cpp t).write m).2.withCode code).length =
      (Cpp.cycles (Cpp.ordered m.nodes)).length * share .dependencyCycle code +
        dropReports code isSlot (Cpp.ordered m.nodes) := by
  have h : KeepingHooks code isSlot (Cpp.walker t).hooks := Cpp.keepingHooks hcode t
  have hpasses : Reports code (dropReports code isSlot (Cpp.ordered m.nodes))
      ((Cpp.walker t).passesOver { m with nodes := Cpp.ordered m.nodes } [.declare, .normal]) := by
    have hdeclare : Silent code _ := Cpp.silent_declare t
      ((Cpp.walker t).outermost { m with nodes := Cpp.ordered m.nodes } .declare)
      (Cpp.ordered m.nodes) rfl
    have hnormal := h.normalPass { m with nodes := Cpp.ordered m.nodes }
    have hall := Reports.join hdeclare hnormal
    rwa [Nat.zero_add] at hall
  have hcycle (path : String) : Reports code _ (warn .dependencyCycle
      "declarations hold each other by value, source order kept" Cpp.key path) :=
    reports_warn _ _ _ _
  have hcycles : Reports code _ (forIn (Cpp.cycles (Cpp.ordered m.nodes)) _ _) :=
    reports_each hcycle
  exact (hcycles.bind fun _ => h.walk hpasses).run

theorem python_reports :
    (((Writer.python t).write m).2.withCode code).length =
      (if (Normal.inOrder? (Python.flatNodes m.nodes)).isNone then share .dependencyCycle code
        else 0) +
        dropReports code isSlot (Normal.inOrder (Python.flatNodes m.nodes)) := by
  have h : KeepingHooks code isSlot (Python.walker t (Python.enumsOf m.nodes)).hooks :=
    Python.keepingHooks hcode t (Python.enumsOf m.nodes)
  have hwalk := h.walk (h.normalPass
    { m with nodes := Normal.inOrder (Python.flatNodes m.nodes) })
  simp only [Writer.python, Python.write, Python.emission]
  cases (Normal.inOrder? (Python.flatNodes m.nodes)).isNone with
  | true =>
    have hwarn : Reports code _ (warn .dependencyCycle
        "classes hold each other by value, source order kept" Python.key "") :=
      reports_warn _ _ _ _
    exact (hwarn.bind fun _ => hwalk).run
  | false =>
    simp only [Bool.false_eq_true, if_false, Nat.zero_add]
    exact hwalk.run

end Writer

end Schemata
