import Schemata.Proofs.Emission.Recording
import Schemata.Proofs.Writer.LoadOrder
import Schemata.Proofs.Writer.OrderedSpaces

/-!
The import lines of Rust, C++ and Python files. They are found in finished texts, so a line is
recorded for what a row of the target says and, just as well, for the name of a declaration that
reads like one that the target knows. The lines of a file are those two, and the ones that its
writer adds.
-/

namespace Schemata

open Emission Schemata.Normal List

namespace Emission

/-! ### Lines of rows and lines of names -/

namespace Source

def phrases (l : Lowerer) : Source → List Phrase
  | .added _ => []
  | .name type => [l.phrase type]
  | .default type => [l.defaultPhrase type]

/-- The line that is added, or those of the identifiers in the rows that are used. -/
def rowLines (known : List (String × String)) (l : Lowerer) : Source → List String
  | .added line => [line]
  | source => ((source.phrases l).flatMap (Phrase.rowTexts l)).flatMap (importsOf known)

/-- The lines of the identifiers in the names of declarations. -/
def nameLines (known : List (String × String)) (l : Lowerer) (source : Source) : List String :=
  ((source.phrases l).flatMap Phrase.names).flatMap fun name => importsOf known (l.qualify name)

end Source

section

variable (known : List (String × String)) (l : Lowerer)

/-- A row or a name in one of the sources has the line. -/
def CallFor (sources : List Source) (line : String) : Prop :=
  ∃ source ∈ sources, line ∈ source.rowLines known l ∨ line ∈ source.nameLines known l

end

variable {known : List (String × String)} {l : Lowerer} {line : String}

theorem mem_importsOf {text : String} :
    line ∈ importsOf known text ↔ ∃ id ∈ identifiers text, known.lookup id = some line := by
  rw [importsOf, mem_filterMap]

theorem mem_importsOf_phrase {p : Phrase} (h : p.IsFenced) :
    line ∈ importsOf known (p.text l) ↔
      line ∈ (p.rowTexts l).flatMap (importsOf known) ∨
        line ∈ p.names.flatMap fun name => importsOf known (l.qualify name) := by
  simp only [mem_flatMap, mem_importsOf, mem_identifiers_text p h, Phrase.Shows]
  constructor
  · rintro ⟨id, ⟨text, htext, hid⟩ | ⟨name, hname, hid⟩, hline⟩
    · exact .inl ⟨text, htext, id, hid, hline⟩
    · exact .inr ⟨name, hname, id, hid, hline⟩
  · rintro (⟨text, htext, id, hid, hline⟩ | ⟨name, hname, id, hid, hline⟩)
    · exact ⟨id, .inl ⟨text, htext, hid⟩, hline⟩
    · exact ⟨id, .inr ⟨name, hname, hid⟩, hline⟩

/-- The lines of a source, when all templates that may be filled for it keep their arguments
apart. -/
theorem Source.mem_lines (hplain : l.IsPlain) (hnames : l.FencesNames) {source : Source}
    (hdefaults : ∀ type, source = .default type → l.FencesDefaults) :
    line ∈ source.lines known l ↔
      line ∈ source.rowLines known l ∨ line ∈ source.nameLines known l := by
  cases source with
  | added other => simp [lines, rowLines, nameLines, phrases]
  | name type =>
    rw [lines, ← Lowerer.text_phrase hplain, mem_importsOf_phrase (isFenced_phrase hnames type)]
    simp [rowLines, nameLines, phrases]
  | default type =>
    rw [lines, ← Lowerer.text_defaultPhrase hplain,
      mem_importsOf_phrase (isFenced_defaultPhrase hnames (hdefaults type rfl) type)]
    simp [rowLines, nameLines, phrases]

/-- The lines that an emission records from the beginning. -/
theorem Records.mem_lines {sources : List Source} {e : Emit String} (h : Records known l sources e)
    (hplain : l.IsPlain) (hnames : l.FencesNames)
    (hdefaults : ∀ source ∈ sources, ∀ type, source = .default type → l.FencesDefaults) :
    line ∈ (run e).2.imports.lines ↔ CallFor known l sources line := by
  rw [Imports.lines, mem_mergeSort]
  refine (h {} line).trans ?_
  rw [or_iff_right not_mem_nil, mem_flatMap]
  refine exists_congr fun source => and_congr_right fun hsource => ?_
  exact Source.mem_lines hplain hnames (hdefaults source hsource)

/-! Whether templates keep their arguments apart is seen from the rows of a draft. -/

section

variable {d : Catalog.TargetDraft}

theorem mem_rows_of_row? {key : String} (htable : l.table = (d.build key).table) {k : Kind}
    {row : Row} (h : l.row? k = some row) : ∃ name, (name, row) ∈ d.rows := by
  rw [Lowerer.row?, htable] at h
  obtain ⟨before, after, hsplit, -⟩ := lookup_eq_some_iff.mp h
  have hmem : (k, row) ∈ (d.build key).table := by simp [hsplit]
  obtain ⟨entry, hentry, hkind⟩ := mem_filterMap.mp hmem
  obtain ⟨_, -, hpair⟩ := Option.map_eq_some_iff.mp hkind
  obtain ⟨-, rfl⟩ := Prod.mk.inj hpair
  exact ⟨entry.1, hentry⟩

theorem fencesNames_of_rows (key : String) (htable : l.table = (d.build key).table)
    (hrows : d.rows.all (fun entry => Template.isFenced entry.2.name) = true) : l.FencesNames := by
  intro k template htemplate
  obtain ⟨row, hrow, hname⟩ := Option.bind_eq_some_iff.mp htemplate
  obtain ⟨name, hmem⟩ := mem_rows_of_row? htable hrow
  split at hname
  · cases hname
  · cases hname
    exact all_eq_true.mp hrows (name, row) hmem

theorem fencesDefaults_of_rows (key : String) (htable : l.table = (d.build key).table)
    (hrows : d.rows.all (fun entry => Template.isFenced entry.2.default) = true) :
    l.FencesDefaults := by
  intro k
  rw [Lowerer.defaultTemplate]
  cases hrow : l.row? k with
  | none => decide
  | some row =>
    obtain ⟨name, hmem⟩ := mem_rows_of_row? htable hrow
    exact all_eq_true.mp hrows (name, row) hmem

end

theorem Sources.nodes_perm (p : Sources) {xs ys : List Node}
    (h : (declarations xs).Perm (declarations ys)) : (p.nodes xs).Perm (p.nodes ys) :=
  h.flatMap_right _

end Emission

namespace Writer

/-! ### Rust -/

namespace Rust

/-- Fields and payloads are written as types; there are no defaults. -/
def sources : Sources where
  field type := [.name type]
  value e payload :=
    if !e.hasPayloads || (payload.isMissing || payload.kind == .monostate) then []
    else [.name payload]

theorem recordingHooks (t : Target) :
    RecordingHooks knownImports (lowererOf t) sources (hooks t) where
  takeMember := by
    refine ⟨isField, _, _, rfl, fun m hm => ?_, fun _ => isSlot_of_isField⟩
    cases m with
    | field f => cases hm
    | _ => rfl
  field f type c := (records_name t.key f.type).then fun _ => .pure _
  oneof o c := (idle_warn _ _ _ _).then fun _ => .pure _
  enumOpen e c := by
    simp only [hooks]
    split <;> exact .pure _
  enumValue e v isLast type c hc := by
    simp only [hooks, sources, hc, Option.any_some]
    cases e.hasPayloads with
    | false => exact .pure _
    | true =>
      cases v.payload.isMissing || v.payload.kind == .monostate with
      | true => exact .pure _
      | false => exact (records_name t.key v.payload).then fun _ => .pure _
  enumClose e c := .pure _
  service s c := .pure _
  braces _ _ := ⟨.pure _, .pure _⟩
  frame _ _ := ⟨.pure _, .pure _⟩
  space _ _ := ⟨.pure _, .pure _⟩
  untaken _ _ _ := rfl

/-- The import lines that are recorded while a file is written. -/
def recorded (t : Target) (m : Module) : List String := (run ((walker t).walk m)).2.imports.lines

theorem text_write (t : Target) (m : Module) : ∃ body, ((Writer.rust t).write m).1 =
    tidy (header t.comment ++ importText (recorded t m) ++ body) :=
  ⟨(run ((walker t).walk m)).1, rfl⟩

theorem records_walk (t : Target) (m : Module) :
    Records knownImports (lowererOf t) (sources.nodes m.nodes) ((walker t).walk m) := by
  have h : RecordingHooks knownImports (lowererOf t) sources (walker t).hooks := recordingHooks t
  exact h.walk (h.normalPass m)

theorem ne_default_of_mem_sources {source : Source} {nodes : List Node}
    (h : source ∈ sources.nodes nodes) (type : TypeExpr) : source ≠ .default type := by
  rintro rfl
  obtain ⟨d, -, hd⟩ := mem_flatMap.mp h
  cases d with
  | struct s =>
    obtain ⟨m, -, hm⟩ := mem_flatMap.mp hd
    cases m <;> simp [Sources.member, sources] at hm
  | enum e =>
    obtain ⟨v, -, hv⟩ := mem_flatMap.mp hd
    simp only [sources] at hv
    split at hv <;> simp at hv
  | _ => cases hd

end Rust

/-! ### C++ -/

namespace Cpp

/-- The underlying type of an enum is written when it is an integer. -/
def underlyingSources (e : Enum) : List Source :=
  match Kind.ofName? e.underlying with
  | some k => if k.isInteger then [.name (.prim k)] else []
  | none => []

/-- Fields have a default, oneofs and enums with payloads are written as one variant. -/
def sources : Sources where
  field type := [.name type, .default type]
  oneof types := [.name (unionType types)]
  enum e :=
    if e.hasPayloads then [.name (unionType (e.values.map EnumValue.payload))]
    else underlyingSources e

variable (t : Target)

theorem records_variant (types : List TypeExpr) :
    Records knownIncludes (lowererOf t) [.name (unionType types)] (variant t types) :=
  records_name t.key (unionType types)

theorem recordingHooks :
    RecordingHooks knownIncludes (lowererOf t) sources (hooks t) where
  takeMember := ⟨isSlot, _, _, rfl, fun _ => Sources.member_of_not_isSlot, fun _ => id⟩
  field f type c := by
    refine (records_name t.key f.type).bind fun _ => ?_
    rw [← bind_assoc]
    exact (records_default t.key f.type).then fun _ => .pure _
  oneof o c := by
    refine (records_variant t _).then fun _ => ?_
    split <;> exact .pure _
  enumOpen e c := by
    simp only [hooks, sources, underlyingSources]
    cases e.hasPayloads with
    | true => exact (records_variant t _).then fun _ => .pure _
    | false =>
      cases Kind.ofName? e.underlying with
      | none => exact .pure _
      | some k =>
        simp only
        cases k.isInteger with
        | false => exact .pure _
        | true => exact (records_name t.key (.prim k)).map.then fun _ => .pure _
  enumValue e v isLast type c hc := by
    simp only [hooks]
    split <;> exact .pure _
  enumClose e c := by
    simp only [hooks]
    split <;> exact .pure _
  service s c := .pure _
  braces _ _ := ⟨.pure _, .pure _⟩
  frame _ _ := ⟨.pure _, .pure _⟩
  space _ _ := ⟨.pure _, .pure _⟩
  untaken n c hc := by
    simp [hooks, declaration, hc]

def recorded (m : Module) : List String := (run (emission t m)).2.imports.lines

theorem text_write (m : Module) : ∃ body, ((Writer.cpp t).write m).1 =
    tidy (header t.comment ++ "#pragma once\n\n" ++ includeText (recorded t m) ++ body) :=
  ⟨(run (emission t m)).1, rfl⟩

/-- The first pass records nothing. -/
theorem idle_declare (nodes : List Node) (c : Context) (hc : c.pass = .declare) :
    Idle knownIncludes (lowererOf t) ((walker t).nodes c nodes) := by
  have hnothing (ds : List Node) : ds.flatMap (fun _ => ([] : List Source)) = [] := by simp
  have hnode : ∀ d c, c.pass = .declare →
      (∀ name inner, d = .space name inner → Records knownIncludes (lowererOf t)
        ((declarations inner).flatMap fun _ => [])
        ((walker t).nodes ((walker t).inside c name) inner)) →
      Records knownIncludes (lowererOf t) ((declarationsOf d).flatMap fun _ => [])
        ((walker t).node c d) := by
    intro d c hc hinner
    simp only [hnothing] at hinner ⊢
    cases d with
    | space name inner =>
      simp only [Walker.node, walker, hooks, declaration, hc, ne_eq, not_true, if_false, pure_bind]
      cases hasStructs inner with
      | true => exact .between (.pure _) (hinner name inner rfl) (.pure _)
      | false => exact .pure _
    | _ =>
      simp only [Walker.node, walker, hooks, declaration, hc, ne_eq, not_true, if_false, pure_bind]
      exact .pure _
  have hall := records_nodes hnode nodes c hc
  rwa [hnothing] at hall

theorem declarations_ordered (nodes : List Node) :
    (declarations (ordered nodes)).Perm (declarations nodes) := by
  rw [declarations_eq_flatMap, declarations_eq_flatMap]
  refine flatMap_ordered (fun name inner => ?_) nodes
  rw [declarationsOf, declarations_eq_flatMap]

theorem records_emission (m : Module) :
    Records knownIncludes (lowererOf t) (sources.nodes (ordered m.nodes)) (emission t m) := by
  have h : RecordingHooks knownIncludes (lowererOf t) sources (walker t).hooks := recordingHooks t
  have hdeclare := idle_declare t (ordered m.nodes)
    ((walker t).outermost { m with nodes := ordered m.nodes } .declare) rfl
  have hpasses := hdeclare.join (h.normalPass { m with nodes := ordered m.nodes })
  refine .after ?_ fun _ => h.walk hpasses
  exact idle_each fun path => idle_warn _ _ _ path

end Cpp

/-! ### Python -/

namespace Python

variable (t : Target)

/-- A field whose default is the value of an enum is written without one from a row. -/
def sources (enums : List Enum) : Sources where
  struct := [.added "from dataclasses import dataclass"]
  field type :=
    .name type :: (if (enumDefault? t enums type).isSome then [] else [.default type])
  oneof types := [.name (unionType types)]
  enum e :=
    if e.hasPayloads then [.name (unionType (e.values.map EnumValue.payload))]
    else [.added "from enum import IntEnum"]
  service := [.added "from typing import Protocol"]

theorem records_union (types : List TypeExpr) :
    Records knownImports (lowererOf t) [.name (unionType types)] (union t types) :=
  records_name t.key (unionType types)

theorem records_defaultText (enums : List Enum) (type : TypeExpr) :
    Records knownImports (lowererOf t)
      (if (enumDefault? t enums type).isSome then [] else [.default type])
      (defaultText t enums type) := by
  rw [defaultText]
  cases enumDefault? t enums type with
  | some text => exact .pure _
  | none => exact records_default t.key type

theorem recordingHooks (enums : List Enum) :
    RecordingHooks knownImports (lowererOf t) (sources t enums) (hooks t enums) where
  takeMember := ⟨isSlot, _, _, rfl, fun _ => Sources.member_of_not_isSlot, fun _ => id⟩
  field f type c :=
    .after idle_nextNumber.map fun _ => (records_name t.key f.type).bind fun _ =>
      (records_defaultText t enums f.type).then fun _ => .pure _
  oneof o c := by
    refine (records_union t _).then fun _ => ?_
    split
    · exact .pure _
    · exact .after idle_nextNumber.map fun _ => .pure _
  enumOpen e c := by
    simp only [hooks, sources]
    cases e.hasPayloads with
    | true => exact (records_union t _).then fun _ => .pure _
    | false => exact (records_addImport _).then fun _ => .pure _
  enumValue e v isLast type c hc := by
    simp only [hooks]
    split <;> exact .pure _
  enumClose e c := .pure _
  service s c := (records_addImport _).then fun _ => .pure _
  braces s c :=
    ⟨.after idle_resetCount fun _ => (records_addImport _).then fun _ => .pure _,
      idle_get.then fun _ => .pure _⟩
  frame _ _ := ⟨.pure _, .pure _⟩
  space _ _ := ⟨.pure _, .pure _⟩
  untaken _ _ _ := rfl

def recorded (m : Module) : List String := (run (emission t m)).2.imports.lines

theorem text_write (m : Module) : ∃ body, ((Writer.python t).write m).1 =
    String.ofList (endLine (header t.comment ++ "from __future__ import annotations\n" ++
      importText (recorded t m) ++ body).toList) := ⟨(run (emission t m)).1, rfl⟩

theorem declarations_flatNodes (nodes : List Node) :
    declarations (flatNodes nodes) = declarations nodes := by
  induction nodes using nodesInduction with
  | nil => rw [flatNodes]
  | cons d rest hinner hrest =>
    cases d with
    | space name inner =>
      rw [flatNodes, declarations_append, hinner name inner rfl, hrest]
      rfl
    | _ => simp [flatNodes, declarations, hrest]

theorem declarations_inOrder (nodes : List Node) :
    (declarations (inOrder (flatNodes nodes))).Perm (declarations nodes) := by
  rw [← declarations_flatNodes nodes, declarations_eq_flatMap, declarations_eq_flatMap]
  exact (inOrder_perm _).flatMap_right _

theorem records_emission (m : Module) :
    Records knownImports (lowererOf t)
      ((sources t (enumsOf m.nodes)).nodes (inOrder (flatNodes m.nodes))) (emission t m) := by
  have h : RecordingHooks knownImports (lowererOf t) (sources t (enumsOf m.nodes))
    (walker t (enumsOf m.nodes)).hooks := recordingHooks t (enumsOf m.nodes)
  have hwalk := h.walk (h.normalPass { m with nodes := inOrder (flatNodes m.nodes) })
  rw [emission]
  split
  · exact .after (idle_warn _ _ _ _) fun _ => hwalk
  · exact hwalk

end Python

/-! ### The built-in targets -/

/-- The target that the built-in catalog has for Rust. -/
def Rust.builtinTarget : Target := Catalog.rustTarget.build "rs"

/-- The target that the built-in catalog has for C++. -/
def Cpp.builtinTarget : Target := Catalog.cppTarget.build "h"

theorem Rust.fencesNames : (lowererOf builtinTarget).FencesNames :=
  fencesNames_of_rows "rs" rfl (by decide +kernel)

theorem Cpp.fencesNames : (lowererOf builtinTarget).FencesNames :=
  fencesNames_of_rows "h" rfl (by decide +kernel)

theorem Cpp.fencesDefaults : (lowererOf builtinTarget).FencesDefaults :=
  fencesDefaults_of_rows "h" rfl (by decide +kernel)

theorem Python.fencesNames : (lowererOf builtinTarget).FencesNames :=
  fencesNames_of_rows "py" rfl (by decide +kernel)

theorem Python.fencesDefaults : (lowererOf builtinTarget).FencesDefaults :=
  fencesDefaults_of_rows "py" rfl (by decide +kernel)

section

variable (m : Module) (line : String)

theorem Rust.mem_recorded : line ∈ recorded builtinTarget m ↔
    CallFor knownImports (lowererOf builtinTarget) (sources.nodes m.nodes) line := by
  refine (records_walk _ m).mem_lines ⟨fun _ => rfl, rfl⟩ fencesNames ?_
  intro source hsource type hdefault
  exact absurd hdefault (ne_default_of_mem_sources hsource type)

theorem Cpp.mem_recorded : line ∈ recorded builtinTarget m ↔
    CallFor knownIncludes (lowererOf builtinTarget) (sources.nodes m.nodes) line := by
  have hperm := sources.nodes_perm (declarations_ordered m.nodes)
  refine ((records_emission _ m).mem_lines ⟨fun _ => rfl, rfl⟩ fencesNames
    fun _ _ _ _ => fencesDefaults).trans ?_
  simp only [CallFor, hperm.mem_iff]

theorem Python.mem_recorded : line ∈ recorded builtinTarget m ↔
    CallFor knownImports (lowererOf builtinTarget)
      ((sources builtinTarget (enumsOf m.nodes)).nodes m.nodes) line := by
  have hperm := (sources builtinTarget (enumsOf m.nodes)).nodes_perm
    (declarations_inOrder m.nodes)
  refine ((records_emission _ m).mem_lines ⟨fun _ => rfl, rfl⟩ fencesNames
    fun _ _ _ _ => fencesDefaults).trans ?_
  simp only [CallFor, hperm.mem_iff]

end

end Writer

open Writer

/-- A file begins with its import lines. They are the lines that its writer adds, those of the
identifiers in the rows that are used for a type of the module, and those of the identifiers in
the names of the declarations that such a type refers to. -/
theorem files_import_for_rows_and_names (m : Module) :
    (∃ body, ((Writer.rust Rust.builtinTarget).write m).1 =
      tidy (header "//" ++ Rust.importText (Rust.recorded Rust.builtinTarget m) ++ body)) ∧
    (∀ line, line ∈ Rust.recorded Rust.builtinTarget m ↔
      CallFor Rust.knownImports (Rust.lowererOf Rust.builtinTarget)
        (Rust.sources.nodes m.nodes) line) ∧
    (∃ body, ((Writer.cpp Cpp.builtinTarget).write m).1 =
      tidy (header "//" ++ "#pragma once\n\n" ++
        Cpp.includeText (Cpp.recorded Cpp.builtinTarget m) ++ body)) ∧
    (∀ line, line ∈ Cpp.recorded Cpp.builtinTarget m ↔
      CallFor Cpp.knownIncludes (Cpp.lowererOf Cpp.builtinTarget)
        (Cpp.sources.nodes m.nodes) line) ∧
    (∃ body, ((Writer.python Python.builtinTarget).write m).1 =
      String.ofList (endLine (header "#" ++ "from __future__ import annotations\n" ++
        Python.importText (Python.recorded Python.builtinTarget m) ++ body).toList)) ∧
    (∀ line, line ∈ Python.recorded Python.builtinTarget m ↔
      CallFor Python.knownImports (Python.lowererOf Python.builtinTarget)
        ((Python.sources Python.builtinTarget (Python.enumsOf m.nodes)).nodes m.nodes) line) :=
  ⟨Rust.text_write _ m, Rust.mem_recorded m, Cpp.text_write _ m, Cpp.mem_recorded m,
    Python.text_write _ m, Python.mem_recorded m⟩

/-- A graph that holds arcs of its own module. -/
def graphs : Module :=
  { nodes := [
      .struct { name := "Arc", members := [
        .field { name := "tail", type := .prim .int64 },
        .field { name := "head", type := .prim .int64 }] },
      .struct { name := "Graph", members := [
        .field { name := "arcs", type := .container .list [.ref "Arc"] }] }] }

/-- The reference to a declaration records a line that no row calls for: the file imports another
type of the name that it declares. -/
theorem graphs_import_another_arc :
    Flat graphs ∧ "Arc" ∈ (declarations graphs.nodes).map Node.name ∧
      "use std::sync::Arc;" ∈ Rust.recorded Rust.builtinTarget graphs ∧
      ∀ source ∈ Rust.sources.nodes graphs.nodes, "use std::sync::Arc;" ∉
        source.rowLines Rust.knownImports (Rust.lowererOf Rust.builtinTarget) := by
  have hsources : Rust.sources.nodes graphs.nodes = [.name (.prim .int64), .name (.prim .int64),
      .name (.container .list [.ref "Arc"])] := rfl
  have hname : Rust.path Rust.builtinTarget "Arc" = "Arc" := by
    have hparts : "Arc".splitOn "." = ["Arc"] := by cbv
    rw [Rust.path, qualified, hparts]
    decide
  have hlines : Source.nameLines Rust.knownImports (Rust.lowererOf Rust.builtinTarget)
      (.name (.container .list [.ref "Arc"])) = ["use std::sync::Arc;"] := by
    have hline : importsOf Rust.knownImports (Rust.path Rust.builtinTarget "Arc") =
        ["use std::sync::Arc;"] := by
      rw [hname]
      decide
    have hnames : ((Rust.lowererOf Rust.builtinTarget).phrase
        (.container .list [.ref "Arc"])).names = ["Arc"] := by decide
    rw [Source.nameLines, Source.phrases, List.flatMap_singleton, hnames, List.flatMap_singleton]
    exact hline
  refine ⟨by decide, by decide, (Rust.mem_recorded graphs _).mpr ?_, ?_⟩
  · exact ⟨.name (.container .list [.ref "Arc"]), by simp [hsources], .inr (by simp [hlines])⟩
  · rw [hsources, List.forall_mem_cons, List.forall_mem_cons, List.forall_mem_singleton]
    exact ⟨by decide, by decide, by decide⟩

end Schemata
