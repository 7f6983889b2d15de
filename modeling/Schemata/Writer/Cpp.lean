import Schemata.Emission.Writer
import Schemata.Normal.Order

/-!
Modules as C++ headers. Declarations are ordered so that every type is defined before it is held
by value, and structs are declared first so that pointers may refer to later ones. Oneofs and sum
types become variants.
-/

namespace Schemata.Writer.Cpp

open Emission Naming

def key : String := "h"

def knownIncludes : List (String × String) :=
  [("int8_t", "<cstdint>"), ("uint8_t", "<cstdint>"), ("int16_t", "<cstdint>"),
   ("uint16_t", "<cstdint>"), ("int32_t", "<cstdint>"), ("uint32_t", "<cstdint>"),
   ("int64_t", "<cstdint>"), ("uint64_t", "<cstdint>"), ("std::string", "<string>"),
   ("std::vector", "<vector>"), ("std::array", "<array>"), ("std::map", "<map>"),
   ("std::unordered_map", "<unordered_map>"), ("std::set", "<set>"),
   ("std::unordered_set", "<unordered_set>"), ("std::optional", "<optional>"),
   ("std::nullopt", "<optional>"), ("std::variant", "<variant>"),
   ("std::monostate", "<variant>"), ("std::tuple", "<tuple>"), ("std::pair", "<utility>"),
   ("std::unique_ptr", "<memory>"), ("std::shared_ptr", "<memory>"),
   ("std::chrono::seconds", "<chrono>"), ("std::chrono::nanoseconds", "<chrono>"),
   ("std::chrono::year_month_day", "<chrono>"),
   ("std::chrono::system_clock::time_point", "<chrono>")]

def reserved : List String :=
  fields "alignas alignof and asm auto bool break case catch char class const
    constexpr continue decltype default delete do double else enum explicit
    export extern false float for friend goto if inline int long mutable
    namespace new noexcept not nullptr operator or private protected public
    register return short signed sizeof static struct switch template this
    throw true try typedef typeid typename union unsigned using virtual void
    volatile while xor"

/-! ### Order -/

/-- The nodes in dependency order, inside namespaces too. -/
def orderedInside : List Node → List Node
  | [] => []
  | .space name inner :: rest =>
    .space name (Normal.inOrder (orderedInside inner)) :: orderedInside rest
  | n :: rest => n :: orderedInside rest

def ordered (nodes : List Node) : List Node := Normal.inOrder (orderedInside nodes)

/-- The paths of the namespaces below whose nodes hold each other by value. -/
def cyclesInside (path : String) : List Node → List String
  | [] => []
  | .space name inner :: rest =>
    let here := if path = "" then name else path ++ "." ++ name
    (if (Normal.inOrder? inner).isNone then [here] else []) ++ cyclesInside here inner ++
      cyclesInside path rest
  | _ :: rest => cyclesInside path rest

/-- The paths of all namespaces, the outermost empty, whose nodes hold each other by value. -/
def cycles (nodes : List Node) : List String :=
  (if (Normal.inOrder? nodes).isNone then [""] else []) ++ cyclesInside "" nodes

/-! ### Names and types -/

variable (t : Target)

def path (name : String) : String := qualified t.naming "::" name

def lowererOf : Lowerer := { t.lowerer with qualify := path t }

def typeText (type : TypeExpr) : Emit String := do
  scan knownIncludes (← report t.key ((lowererOf t).typeName type))

def memberName (name : String) : String :=
  escapeName reserved (· ++ "_") (t.naming.field.apply name)

def variant (types : List TypeExpr) : Emit String := typeText t (unionType types)

/-! ### Declarations -/

/-- Whether structs stand in a list of nodes or in its namespaces. -/
def hasStructs : List Node → Bool
  | [] => false
  | .struct _ :: _ => true
  | .space _ inner :: rest => hasStructs inner || hasStructs rest
  | _ :: rest => hasStructs rest

/-- In the first pass structs are declared and all else is left out. -/
def declaration (n : Node) (c : Context) : Option String :=
  if c.pass ≠ .declare then none
  else match n with
    | .struct s => some (c.indent ++ "struct " ++ t.naming.struct.apply s.name ++ ";\n")
    | .space _ inner => if hasStructs inner then none else some ""
    | _ => some ""

def methodLine (indent : String) (m : Method) : String :=
  indent ++ "virtual " ++ path t m.response ++ " " ++ memberName t m.name ++ "(const " ++
    path t m.request ++ "& request) = 0;\n"

def hooks : Hooks Emit where
  header m _ :=
    let lines := m.namespaces.map fun n =>
      "namespace " ++ t.naming.namespaces.apply n ++ r" {" ++ "\n"
    return String.join lines ++ (if m.namespaces.isEmpty then "" else "\n")
  footer m _ :=
    return String.join (m.namespaces.reverse.map fun n =>
      r"}  // namespace " ++ t.naming.namespaces.apply n ++ "\n")
  takeNode n c := return declaration t n c
  spaceOpen name c :=
    return c.indent ++ "namespace " ++ t.naming.namespaces.apply name ++ r" {" ++ "\n"
  spaceClose name c :=
    return c.indent ++ r"}  // namespace " ++ t.naming.namespaces.apply name ++ "\n\n"
  structOpen s c :=
    let base := if s.base = "" then "" else " : public " ++ path t s.base
    return "\n" ++ c.indent ++ "struct " ++ t.naming.struct.apply s.name ++ base ++ r" {" ++ "\n"
  structClose _ c := return c.indent ++ r"};" ++ "\n\n"
  field f _ c := do
    let type ← typeText t f.type
    let default ← scan knownIncludes (← report t.key ((lowererOf t).defaultValue f.type))
    return c.indent ++ type ++ " " ++ memberName t f.name ++
      (if default = "" then "" else " = " ++ default) ++ ";\n"
  oneof o c := do
    let text ← variant t (o.alternatives.map (·.type))
    if c.parent.isNone then
      return c.indent ++ "using " ++ t.naming.struct.apply o.name ++ " = " ++ text ++ ";\n\n"
    else return c.indent ++ text ++ " " ++ memberName t o.name ++ ";\n"
  takeMember := dropMembers isSlot "is not flattened, dropped" key
  enumOpen e c := do
    let name := t.naming.struct.apply e.name
    if e.hasPayloads then
      let text ← variant t (e.values.map (·.payload))
      return "\n" ++ c.indent ++ "using " ++ name ++ " = " ++ text ++ ";\n\n"
    else
      let underlying ← match Kind.ofName? e.underlying with
        | some k => if k.isInteger then (" : " ++ ·) <$> typeText t (.prim k) else pure ""
        | none => pure ""
      return "\n" ++ c.indent ++ (if e.isScoped then "enum class " else "enum ") ++ name ++
        underlying ++ r" {" ++ "\n"
  enumValue v _ _ c :=
    if c.owner.any (·.hasPayloads) then return ""
    else return c.indent ++ t.naming.constant.apply v.name ++ " = " ++ showInt v.number ++ ",\n"
  enumClose e c := if e.hasPayloads then return "" else return c.indent ++ r"};" ++ "\n\n"
  service s c :=
    let name := t.naming.struct.apply s.name
    return "\n" ++ c.indent ++ "class " ++ name ++ r" {" ++ "\n" ++ c.indent ++ "public:\n" ++
      c.nest.indent ++ "virtual ~" ++ name ++ "() = default;\n" ++
      String.join (s.methods.map (methodLine t c.nest.indent)) ++ c.indent ++ r"};" ++ "\n\n"

def walker : Walker Emit :=
  { hooks := hooks t, passes := [.declare, .normal], flatSpaces := true }

/-- Cycles are reported before the nodes are written in order. -/
def emission (m : Module) : Emit String := do
  let nodes := ordered m.nodes
  for path in cycles nodes do
    warn .dependencyCycle "declarations hold each other by value, source order kept" key path
  (walker t).walk { m with nodes }

def includeText (lines : List String) : String :=
  let includes := lines.map fun line => "#include " ++ line ++ "\n"
  String.join includes ++ (if includes.isEmpty then "" else "\n")

def write (m : Module) : String × Diagnostics :=
  let (body, s) := run (emission t m)
  (tidy (header t.comment ++ "#pragma once\n\n" ++ includeText s.imports.lines ++ body),
    s.reported.diagnostics)

end Cpp

def cpp (t : Target) : Writer := { key := Cpp.key, target := t, write := Cpp.write t }

end Schemata.Writer
