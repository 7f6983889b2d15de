import Schemata.Proofs.Emission.Results
import Schemata.Proofs.Lowering.Mentions
import Schemata.Proofs.Traversal.Pieces
import Schemata.Writer.Python

/-!
The statements of Python files. Every declaration is written as one statement, which defines a
class or gives a union a name. When the file is loaded a statement evaluates some expressions: the
base of a class, the defaults of its fields, a union that gets a name. They are phrases or values
of enums, so the names in them are known, and each of them stands in the text of its statement.
-/

namespace Schemata

open Emission List

variable {c : Context}

namespace Writer.Python

/-- An expression that is evaluated when a file is loaded. -/
inductive Expression where
  | composed (phrase : Phrase)
  /-- A value of the enum that a reference leads to. -/
  | constant (ref value : String)

namespace Expression

def text (t : Target) : Expression → String
  | .composed phrase => phrase.text (lowererOf t)
  | .constant ref value => className t ref ++ "." ++ t.naming.constant.apply value

def names : Expression → List String
  | .composed phrase => phrase.names
  | .constant ref _ => [ref]

end Expression

variable (t : Target) (enums : List Enum)

def defaultExpression : TypeExpr → Expression
  | .reference name k =>
    match enums.reverse.find? (·.name == lastSegment name) with
    | some e =>
      if e.hasPayloads then .composed ((lowererOf t).defaultPhrase (.reference name k))
      else match e.values with
        | [] => .composed (.verbatim "None")
        | v :: _ => .constant name v.name
    | none => .composed ((lowererOf t).defaultPhrase (.reference name k))
  | type => .composed ((lowererOf t).defaultPhrase type)

def unionExpression (types : List TypeExpr) : Expression :=
  .composed ((lowererOf t).phrase (unionType types))

def memberExpression? : Member → Option Expression
  | .field f => some (defaultExpression t enums f.type)
  | .oneof _ | .enum _ | .struct _ => none

/-- The expressions that the statement of a node evaluates. Annotations are not evaluated. -/
def expressions : Node → List Expression
  | .struct s =>
    (if s.base = "" then [] else [.composed (.declared s.base)]) ++
      s.members.filterMap (memberExpression? t enums)
  | .enum e => if e.hasPayloads then [unionExpression t (e.values.map (·.payload))] else []
  | .oneof o => [unionExpression t (o.alternatives.map (·.type))]
  | .space _ _ | .service _ => []

/-- The names, as the schema has them, of the classes that a statement evaluates. -/
def evaluated (d : Node) : List String :=
  (expressions t enums d).flatMap Expression.names

/-- How a statement names what it defines. -/
def heading : Node → String
  | .struct s => "class " ++ className t s.name
  | .enum e => if e.hasPayloads then className t e.name ++ " = " else "class " ++ className t e.name
  | .oneof o => className t o.name ++ " = "
  | .service s => "class " ++ className t s.name
  | .space _ _ => ""

/-! ### What is written is what is evaluated -/

theorem isPlain_lowererOf : (lowererOf t).IsPlain :=
  ⟨fun _ => rfl, rfl⟩

theorem yields_typeText (type : TypeExpr) :
    Yields (((lowererOf t).phrase type).text (lowererOf t)) (typeText t type) := fun _ =>
  (Lowerer.text_phrase (isPlain_lowererOf t) type).symm

theorem lastSegment_of_lastSegment (name : String) :
    lastSegment (lastSegment name) = lastSegment name := by
  simp only [lastSegment, String.toList_ofList, reverse_reverse, takeWhile_takeWhile,
    and_self, Bool.decide_eq_true]

theorem yields_defaultText (type : TypeExpr) :
    Yields ((defaultExpression t enums type).text t) (defaultText t enums type) := by
  intro s
  have hlowered := (Lowerer.text_defaultPhrase (isPlain_lowererOf t) type).symm
  cases type with
  | reference name k =>
    simp only [defaultText, enumDefault?, defaultExpression]
    cases hfound : enums.reverse.find? (·.name == lastSegment name) with
    | none => exact hlowered
    | some e =>
      cases hpayloads : e.hasPayloads with
      | true =>
        simp only [hpayloads, if_true]
        exact hlowered
      | false =>
        simp only [hpayloads, Bool.false_eq_true, if_false]
        cases hvalues : e.values with
        | nil => rfl
        | cons v vs =>
          -- the enum is called like the last part of the reference
          have hname : e.name = lastSegment name := by
            simpa using List.find?_some hfound
          have hclass : className t e.name = className t name := by
            rw [className, className, hname, lastSegment_of_lastSegment]
          change className t e.name ++ "." ++ t.naming.constant.apply v.name = _
          rw [hclass]
          rfl
  | _ => exact hlowered

theorem shows_union {part : String} (types : List TypeExpr) {f : String → Emit String}
    (hf : Shows part (f ((unionExpression t types).text t))) : Shows part (union t types >>= f) :=
  (yields_typeText t (unionType types)).shows hf

/-- The line that gives a union a name. -/
def aliasLine (name : String) (types : List TypeExpr) : Emit String := do
  let text ← union t types
  return "\n\n" ++ className t name ++ " = " ++ text ++ "\n"

theorem shows_alias_name (name : String) (types : List TypeExpr) :
    Shows (className t name ++ " = ") (aliasLine t name types) := by
  refine shows_union t types (Shows.of_eq "\n\n" ((unionExpression t types).text t ++ "\n") ?_)
  simp only [String.append_assoc]

theorem shows_alias_union (name : String) (types : List TypeExpr) :
    Shows ((unionExpression t types).text t) (aliasLine t name types) :=
  shows_union t types (Shows.of_eq ("\n\n" ++ className t name ++ " = ") "\n" rfl)

theorem enumOpen_of_payloads {e : Enum} (h : e.hasPayloads = true) (c : Context) :
    (walker t enums).hooks.enumOpen e c = aliasLine t e.name (e.values.map (·.payload)) := by
  simp [walker, hooks, h, aliasLine]

theorem oneof_of_outermost (hparent : c.parent = none) (o : Oneof) :
    (walker t enums).hooks.oneof o c = aliasLine t o.name (o.alternatives.map (·.type)) := by
  simp [walker, hooks, hparent, aliasLine]

/-- What stands behind the name of a class. -/
def baseText (base : String) : String := if base = "" then "" else "(" ++ className t base ++ ")"

theorem structOpen_eq (s : Struct) (c : Context) :
    (walker t enums).hooks.structOpen s c = (do
      resetCount
      addImport "from dataclasses import dataclass"
      return "\n\n@dataclass\nclass " ++ className t s.name ++ baseText t s.base ++ ":\n") := rfl

theorem struct_eq (s : Struct) (c : Context) :
    (walker t enums).struct c s = (do
      let opening ← (walker t enums).hooks.structOpen s c
      let body ← (walker t enums).members { c.nest with parent := some s } s.members
      let closing ← (walker t enums).hooks.structClose s c
      return opening ++ body ++ closing) := by
  cases s
  rw [Walker.struct]

theorem shows_heading (hparent : c.parent = none) (d : Node) :
    Shows (heading t d) ((walker t enums).untaken c d) := by
  cases d with
  | struct s =>
    rw [Walker.untaken, struct_eq, structOpen_eq]
    refine Shows.opening (Shows.bind fun _ => Shows.bind fun _ => ?_)
    refine Shows.of_eq "\n\n@dataclass\n" (baseText t s.base ++ ":\n") ?_
    have hline : "\n\n@dataclass\nclass " = "\n\n@dataclass\n" ++ "class " := by decide
    simp only [hline, heading, String.append_assoc]
  | enum e =>
    rw [Walker.untaken, Walker.enum]
    refine Shows.opening ?_
    cases hpayloads : e.hasPayloads with
    | true =>
      rw [enumOpen_of_payloads t enums hpayloads, heading, if_pos hpayloads]
      exact shows_alias_name t e.name _
    | false =>
      have hopen : (walker t enums).hooks.enumOpen e c = (do
          addImport "from enum import IntEnum"
          return "\n\nclass " ++ className t e.name ++ "(IntEnum):\n") := by
        simp only [walker, hooks, hpayloads, Bool.false_eq_true, if_false]
      rw [hopen, heading, hpayloads]
      refine Shows.bind fun _ => Shows.of_eq "\n\n" "(IntEnum):\n" ?_
      have hline : "\n\nclass " = "\n\n" ++ "class " := by decide
      simp only [hline, String.append_assoc, Bool.false_eq_true, if_false]
  | oneof o =>
    rw [Walker.untaken, oneof_of_outermost t enums hparent]
    exact shows_alias_name t o.name _
  | service s =>
    have hline : "\n\nclass " = "\n\n" ++ "class " := by decide
    refine Shows.bind fun _ => Shows.of_eq "\n\n" ("(Protocol):\n" ++
      String.join (s.methods.map (methodLine t c.nest.indent)) ++
      (if s.methods.isEmpty then "    pass\n" else "")) ?_
    simp only [hline, heading, String.append_assoc]
  | space name inner => exact fun _ => nil_infix

theorem shows_field (f : Field) :
    Shows ((defaultExpression t enums f.type).text t) ((walker t enums).member c (.field f)) := by
  obtain ⟨name, type, attrs⟩ := f
  have htake : (walker t enums).hooks.takeMember (.field ⟨name, type, attrs⟩) c = pure none := rfl
  rw [Walker.member, htake, pure_bind]
  refine Shows.bind fun _ => Shows.bind fun text => (yields_defaultText t enums type).shows ?_
  by_cases hempty : (defaultExpression t enums type).text t = ""
  · rw [hempty]
    exact fun _ => nil_infix
  · rw [if_neg hempty]
    refine Shows.of_eq (c.indent ++ attributeName t name ++ ": " ++ text ++ " = ") "\n" ?_
    simp only [String.append_assoc]

theorem shows_member {ms : List Member} {x : Expression}
    (hx : x ∈ ms.filterMap (memberExpression? t enums)) :
    Shows (x.text t) ((walker t enums).members c ms) := by
  induction ms with
  | nil => cases hx
  | cons m ms ih =>
    rw [Walker.members]
    rw [mem_filterMap, exists_mem_cons_iff] at hx
    rcases hx with hx | hx
    · cases m with
      | field f =>
        cases hx
        exact (shows_field t enums f).head
      | _ => cases hx
    · exact (ih (mem_filterMap.mpr hx)).tail

/-- The expressions of a statement stand in its text. -/
theorem shows_expression (hparent : c.parent = none) {d : Node} {x : Expression}
    (hx : x ∈ expressions t enums d) : Shows (x.text t) ((walker t enums).untaken c d) := by
  cases d with
  | struct s =>
    rw [Walker.untaken, struct_eq]
    rw [expressions, mem_append] at hx
    rcases hx with hx | hx
    · by_cases hbase : s.base = ""
      · simp [hbase] at hx
      · rw [if_neg hbase, mem_singleton] at hx
        rw [structOpen_eq, baseText, if_neg hbase, hx]
        refine Shows.opening (Shows.bind fun _ => Shows.bind fun _ => ?_)
        refine Shows.of_eq ("\n\n@dataclass\nclass " ++ className t s.name ++ "(") ("):\n") ?_
        simp only [String.append_assoc]
        rfl
    · exact Shows.body (shows_member t enums hx)
  | enum e =>
    cases hpayloads : e.hasPayloads with
    | true =>
      rw [expressions, if_pos hpayloads, mem_singleton] at hx
      rw [Walker.untaken, Walker.enum, enumOpen_of_payloads t enums hpayloads, hx]
      exact Shows.opening (shows_alias_union t e.name _)
    | false => simp [expressions, hpayloads] at hx
  | oneof o =>
    rw [expressions, mem_singleton] at hx
    rw [Walker.untaken, oneof_of_outermost t enums hparent, hx]
    exact shows_alias_union t o.name _
  | _ => cases hx

end Writer.Python

end Schemata
